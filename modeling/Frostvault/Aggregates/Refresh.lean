import Frostvault.Aggregates.Pages
import Mathlib.Algebra.BigOperators.Group.List.Basic

/-!
The SQL refresh of a directory and its row of a full rebuild.

Both classifiers are reduced to sums over a list of rows: `columnsOf` of the rows below the
directory.  The two writers then differ only in which rows they count: the refresh takes the
files whose path starts with the directory and a slash, the full rebuild those that list the
directory among the ancestors of their *normalised* path.

* `columnsSql_eq`: the grouped SQL rollup is `columnsOf` the rows;
* `rolled_columns`: the Python fold is `columnsOf` the rows that name the directory;
* `columnsOf_filter`: sums split over a partition of the rows;
* `refresh_eq_rebuild_iff`: **the two agree exactly when the visible files that the normalisation
  misfiles balance**; if all of them are misfiled the same way, exactly when there is none.
-/

namespace Frostvault

open List

/-! ### Sums over rows -/

/-- The counted columns of a non-empty list of rows, as plain sums. -/
def columnsOf (rows : List VisibleRow) : RollupColumns where
  itemCount := rows.length
  totalSize := (rows.map fun r => (contributionOf r).totalSize).sum
  localSize := (rows.map fun r => (contributionOf r).localSize).sum
  cloudSize := (rows.map fun r => (contributionOf r).cloudSize).sum
  stateCounts s := rows.countP fun r => r.protectionState = s
  actionCounts a := rows.countP fun r => (contributionOf r).counts a

/-- Adding up the groups of the five states adds up all rows. -/
lemma sum_groups (rows : List VisibleRow) (g : VisibleRow → ℕ) :
    (ProtectionState.all.map fun s =>
      ((rows.filter fun r => r.protectionState = s).map g).sum).sum = (rows.map g).sum := by
  induction rows with
  | nil => simp [ProtectionState.all]
  | cons r rows ih =>
      rw [map_cons, sum_cons, ← ih]
      cases hr : r.protectionState <;>
        simp [ProtectionState.all, filter_cons, hr] <;> omega

/-- A sum over the groups that exist is a sum over all states. -/
lemma sum_summaries (rows : List VisibleRow) (key : Summary → ℕ) (g : VisibleRow → ℕ)
    (hkey : ∀ s rs, key (summarize s rs) = (rs.map g).sum) :
    ((summaries rows).map key).sum = (rows.map g).sum := by
  rw [← sum_groups, summaries, map_map]
  have : ∀ ss : List ProtectionState,
      ((ss.filter fun s => rows.any fun r => r.protectionState = s).map
        (key ∘ fun s => summarize s (rows.filter fun r => r.protectionState = s))).sum =
      (ss.map fun s => ((rows.filter fun r => r.protectionState = s).map g).sum).sum := by
    intro ss
    induction ss with
    | nil => rfl
    | cons s ss ih =>
        rw [filter_cons]
        split
        · rw [map_cons, sum_cons, ih, Function.comp_apply, hkey, map_cons,
            sum_cons]
        · rename_i h
          -- a state without rows adds nothing
          have hnil : rows.filter (fun r => r.protectionState = s) = [] := by
            rw [filter_eq_nil_iff]
            intro r hr hs
            exact h (any_eq_true.mpr ⟨r, hr, hs⟩)
          rw [ih, map_cons, sum_cons, hnil]
          simp
  exact this _

/-- A count is a sum of zeros and ones. -/
lemma sum_ite_eq_countP {α : Type*} (l : List α) (q : α → Bool) :
    (l.map fun x => if q x = true then 1 else 0).sum = l.countP q := by
  induction l with
  | nil => rfl
  | cons x l ih =>
      rw [map_cons, sum_cons, ih, countP_cons]
      omega

/-! ### The two classifiers on one row -/

/-- The joined columns of the version are null together, and a protected row has its bytes
in the cloud. -/
structure Joined (r : VisibleRow) : Prop where
  availability : r.availability.isSome = r.archiveVersionId.isSome
  protected_ : r.protectionState = .protected_ →
    r.localPresence = some .present ∧ r.localFileType = some .regular ∧
    r.integrity = some .verified ∧ r.availability = some .available ∧
    r.matchedArchiveVersionId = r.archiveVersionId ∧ r.archiveVersionId.isSome ∧
    r.localSha256.isSome ∧ r.localSha256 = r.versionSha256

lemma joined_rowAt (jobs : List Job) (f : VaultFile) (p : Path) : Joined (rowAt jobs f p) where
  availability := by simp [rowAt]
  protected_ := by
    intro h
    have hp := protectedSql_of_state h
    simp only [protectedSql, Sql.Cond.holds_and, Sql.holds_eqLit, Sql.holds_eq,
      Sql.holds_isNotNull, Bool.and_eq_true, decide_eq_true_eq] at hp
    obtain ⟨⟨⟨⟨⟨h1, h2⟩, h3⟩, h4⟩, h5, h6⟩, h7, h8, -⟩ := hp
    have h6' : (f.latestVersion.map ArchiveVersion.id).isSome := by rw [← h5, h6]
    exact ⟨h1, h2, h3, h4, h5, h6', h7, h8⟩

variable {cat : Catalog} {d : Path} {rows : List VisibleRow}

lemma joined_of_mem_orderedRows {coll : Collation} {v : VaultId} {r : VisibleRow}
    (h : r ∈ orderedRows coll cat v) : Joined r := by
  have hr : r ∈ cat.rows v := (mem_insertionSort _).mp h
  obtain ⟨f, -, hf⟩ := mem_filterMap.mp hr
  rw [(fileRow_eq_some hf).2.2.2]
  exact joined_rowAt _ _ _

lemma totalSizeSql_eq (r : VisibleRow) : r.totalSizeSql = (contributionOf r).totalSize := by
  simp only [VisibleRow.totalSizeSql, contributionOf]
  cases r.localSize <;> rfl

lemma holds_inList_localPresence (p : Option Presence) :
    (Sql.inList p [.present, .unsupported]).holds =
      (decide (p = some .present) || decide (p = some .unsupported)) := by
  cases p with
  | none => rfl
  | some p => cases p <;> rfl

lemma holds_notIn_availability (a : Option Availability) :
    (Sql.Cond.not (Sql.inList a [.missing, .purged])).holds =
      (a.isSome && decide (a ≠ some .missing) && decide (a ≠ some .purged)) := by
  cases a with
  | none => rfl
  | some a => cases a <;> rfl

lemma localSizeSql_eq (r : VisibleRow) : r.localSizeSql = (contributionOf r).localSize := by
  simp only [VisibleRow.localSizeSql, contributionOf, VisibleRow.localExists,
    holds_inList_localPresence]
  congr

lemma cloudSizeSql_eq {r : VisibleRow} (h : Joined r) :
    r.cloudSizeSql = (contributionOf r).cloudSize := by
  simp only [VisibleRow.cloudSizeSql, contributionOf, VisibleRow.hasCloud,
    holds_notIn_availability, h.availability]
  congr

lemma uploadSql_eq (r : VisibleRow) : (uploadSql r).holds = (contributionOf r).uploadEligible := by
  simp only [uploadSql, contributionOf, localCopyIsUploadEligible, localCopyIsProtected,
    Sql.Cond.holds_and, Sql.holds_eqLit, Sql.Cond.holds_some, Sql.Cond.holds_not_coalesce,
    Sql.holds_eq, Sql.holds_isNotNull]
  cases hid : r.archiveVersionId with
  | none => cases hm : r.matchedArchiveVersionId <;> simp
  | some id =>
      cases hs : r.localSha256 with
      | none => simp
      | some x => cases hm : r.matchedArchiveVersionId <;> simp

lemma recoverSql_eq (r : VisibleRow) : recoverSql r = (contributionOf r).recoverEligible := by
  simp only [recoverSql, contributionOf, VisibleRow.localExists]
  cases r.localPresence with
  | none => simp
  | some p => cases p <;> simp

lemma cleanupEligible_eq {r : VisibleRow} (h : Joined r) :
    (contributionOf r).cleanupEligible = decide (r.protectionState = .protected_) := by
  by_cases hp : r.protectionState = .protected_
  · obtain ⟨h1, h2, h3, h4, h5, h6, h7, h8⟩ := h.protected_ hp
    simp [contributionOf, hp, h1, h2, h3, h4, h5, h6, ← h8, h7]
  · simp [contributionOf, hp]

/-! ### The SQL rollup -/

/-- The state counts are read from the groups. -/
lemma stateCount_summaries (rows : List VisibleRow) (s : ProtectionState) :
    (((summaries rows).find? fun g => g.protectionState = s).map Summary.itemCount).getD 0 =
      rows.countP fun r => r.protectionState = s := by
  have hfind : (summaries rows).find? (fun g => g.protectionState = s) =
      if rows.any (fun r => r.protectionState = s) then
        some (summarize s (rows.filter fun r => r.protectionState = s)) else none := by
    simp only [summaries, find?_map, find?_filter]
    cases s <;> simp [ProtectionState.all, summarize, find?_cons] <;>
      split <;> simp_all
  rw [hfind, countP_eq_length_filter]
  split
  · simp [summarize]
  · rename_i h
    rw [Option.map_none, Option.getD_none, eq_comm, length_eq_zero_iff,
      filter_eq_nil_iff]
    intro r hr hs
    exact h (any_eq_true.mpr ⟨r, hr, hs⟩)

/-- **The grouped SQL rollup** is the sum over all rows, and nothing for no rows. -/
lemma columnsSql_eq (hj : ∀ r ∈ rows, Joined r) :
    columnsSql rows = if rows = [] then none else some (columnsOf rows) := by
  have hcount : ((summaries rows).map Summary.itemCount).sum = rows.length := by
    rw [sum_summaries rows Summary.itemCount (fun _ => 1) (fun s rs => by simp [summarize])]
    simp
  have hsum : ∀ (key : Summary → ℕ) (g g' : VisibleRow → ℕ),
      (∀ s rs, key (summarize s rs) = (rs.map g).sum) → (∀ r ∈ rows, g r = g' r) →
      ((summaries rows).map key).sum = (rows.map g').sum := by
    intro key g g' hkey hg
    rw [sum_summaries rows key g hkey, map_congr_left hg]
  rw [columnsSql]
  simp only [hcount]
  by_cases hnil : rows = []
  · simp [hnil]
  · have hpos : ¬ rows.length ≤ 0 := by
      have := length_pos_iff.mpr hnil
      omega
    rw [if_neg hpos, if_neg hnil]
    refine congrArg some (RollupColumns.ext rfl ?_ ?_ ?_ ?_ ?_)
    · exact hsum _ _ _ (fun _ _ => rfl) fun r _ => totalSizeSql_eq r
    · exact hsum _ _ _ (fun _ _ => rfl) fun r _ => localSizeSql_eq r
    · exact hsum _ _ _ (fun _ _ => rfl) fun r hr => cloudSizeSql_eq (hj r hr)
    · exact funext fun s => stateCount_summaries rows s
    · -- one action column at a time; `free-space` counts protected rows
      funext a
      cases a with
      | upload =>
          refine Eq.trans ?_ (sum_ite_eq_countP rows _)
          exact hsum _ _ _ (fun _ _ => rfl) fun r _ => by
            rw [uploadSql_eq, FileContribution.counts]
      | recover =>
          refine Eq.trans ?_ (sum_ite_eq_countP rows _)
          exact hsum _ _ _ (fun _ _ => rfl) fun r _ => by
            rw [recoverSql_eq, FileContribution.counts]
      | freeSpace =>
          refine Eq.trans ?_ (sum_ite_eq_countP rows _)
          exact hsum _ _ _ (fun _ _ => rfl) fun r hr => by
            simp [cleanupEligible_eq (hj r hr), FileContribution.counts]
      | cloudPurge =>
          refine Eq.trans ?_ (sum_ite_eq_countP rows _)
          exact hsum _ _ _ (fun _ _ => rfl) fun r _ => by
            by_cases h : r.protectionState = .cloudOnly <;>
              simp [FileContribution.counts, contributionOf, h]

/-! ### The Python fold -/

/-- Updating a list of different keys updates each of them once. -/
lemma foldl_update_apply (c : FileContribution) (ds : List Path) (hnd : ds.Nodup) (m : Rolled)
    (d : Path) :
    (ds.foldl (fun m d => Function.update m d (some (((m d).getD .zero).add c))) m) d =
      if d ∈ ds then some (((m d).getD .zero).add c) else m d := by
  induction ds generalizing m with
  | nil => simp
  | cons e ds ih =>
      obtain ⟨he, hnd⟩ := nodup_cons.mp hnd
      rw [foldl_cons, ih hnd]
      by_cases hde : d = e
      · subst hde
        simp [he]
      · simp [hde]

lemma rolledAdd_apply (m : Rolled) (c : FileContribution) (d : Path) :
    rolledAdd m c d =
      if d ∈ ancestorDirectories c.path then some (((m d).getD .zero).add c) else m d :=
  foldl_update_apply c _ (ancestorDirectories_nodup _) m d

/-- The rollup of a directory folds the contributions that name it as an ancestor. -/
lemma foldl_rolledAdd_apply (cs : List FileContribution) (m : Rolled) (d : Path) :
    (cs.foldl rolledAdd m) d =
      (cs.filter fun c => d ∈ ancestorDirectories c.path).foldl
        (fun o c => some ((o.getD .zero).add c)) (m d) := by
  induction cs generalizing m with
  | nil => rfl
  | cons c cs ih =>
      rw [foldl_cons, ih, rolledAdd_apply, filter_cons]
      by_cases h : d ∈ ancestorDirectories c.path <;> simp [h]

/-- A rollup starts at its first contribution. -/
lemma foldl_some_add (cs : List FileContribution) (o : Option DirectoryRollup) :
    cs.foldl (fun o c => some ((o.getD .zero).add c)) o =
      if cs = [] then o else some (cs.foldl DirectoryRollup.add (o.getD .zero)) := by
  induction cs generalizing o with
  | nil => simp
  | cons c cs ih =>
      rw [foldl_cons, ih]
      by_cases h : cs = [] <;> simp [h]

/-- The columns after a fold are the columns before it plus the sums. -/
lemma foldl_add_columns (rows : List VisibleRow) (r : DirectoryRollup) :
    ((rows.map contributionOf).foldl DirectoryRollup.add r).toRollupColumns =
      { itemCount := r.itemCount + (columnsOf rows).itemCount
        totalSize := r.totalSize + (columnsOf rows).totalSize
        localSize := r.localSize + (columnsOf rows).localSize
        cloudSize := r.cloudSize + (columnsOf rows).cloudSize
        stateCounts := fun s => r.stateCounts s + (columnsOf rows).stateCounts s
        actionCounts := fun a => r.actionCounts a + (columnsOf rows).actionCounts a } := by
  induction rows generalizing r with
  | nil => simp [columnsOf]
  | cons x rows ih =>
      rw [map_cons, foldl_cons, ih]
      simp only [columnsOf, DirectoryRollup.add, length_cons, map_cons, sum_cons,
        countP_cons]
      refine RollupColumns.ext ?_ ?_ ?_ ?_ ?_ ?_
      · simp only
        omega
      · simp only
        omega
      · simp only
        omega
      · simp only
        omega
      · funext s
        by_cases h : x.protectionState = s
        · simp [contributionOf, h]
          omega
        · simp [contributionOf, h]
      · funext a
        simp only
        omega

variable (coll : Collation)

/-- The visible ordered rows that name a directory among their ancestors. -/
def rowsNaming (cat : Catalog) (v : VaultId) (d : Path) : List VisibleRow :=
  (orderedRows coll cat v).filter fun r => r.visible && decide (d ∈ ancestorDirectories r.path)

/-- The contributions of a list of rows are those of its visible rows. -/
lemma filterMap_contributionFromRow (rows : List VisibleRow) :
    rows.filterMap contributionFromRow =
      (rows.filter VisibleRow.visible).map contributionOf := by
  induction rows with
  | nil => rfl
  | cons r rows ih =>
      cases h : r.visible <;> simp [contributionFromRow, h, ih]

/-- The contributions below a directory that a sequence of rows folds. -/
lemma filter_contributions (rows : List VisibleRow) (d : Path) :
    (rows.filterMap contributionFromRow).filter
        (fun c => decide (d ∈ ancestorDirectories c.path)) =
      (rows.filter fun r => r.visible && decide (d ∈ ancestorDirectories r.path)).map
        contributionOf := by
  rw [filterMap_contributionFromRow, filter_map, filter_filter]
  refine congrArg _ (filter_congr fun r _ => ?_)
  rw [Bool.and_comm]
  rfl

lemma ne_nil_of_mem_ancestorDirectories {p : Path} (h : d ∈ ancestorDirectories p) :
    p ≠ [] := by
  rintro rfl
  simp [ancestorDirectories, normalize, Text.strip] at h

lemma effectiveBatchSize_pos (batchSize : Option ℤ) : 0 < effectiveBatchSize batchSize := by
  cases batchSize with
  | none => decide
  | some n =>
      simp only [effectiveBatchSize]
      split
      · decide
      · omega

/-- **All batches of a full rebuild**, for every batch size, hold the contributions of the
rows above the empty keyset. -/
lemma flatten_iterVisibleFileContributionBatches (cat : Catalog) (v : VaultId)
    (batchSize : Option ℤ) :
    (iterVisibleFileContributionBatches coll cat v batchSize).flatten =
      (Keyset.after VisibleRow.path coll.lt [] (orderedRows coll cat v)).filterMap
        contributionFromRow := by
  refine flatten_contributionBatches coll cat v (effectiveBatchSize_pos batchSize) _ _ ?_
  have h1 := length_filter_le (fun r => coll.lt [] (VisibleRow.path r))
    (orderedRows coll cat v)
  have h2 : (orderedRows coll cat v).length = (cat.rows v).length :=
    length_insertionSort _ _
  rw [Keyset.after]
  omega

/-- **The rollup a full rebuild stores** for a directory, for every batch size. -/
lemma rebuildVaultDirectoryAggregates_apply (cat : Catalog) (v : VaultId) (batchSize : Option ℤ)
    (d : Path) :
    rebuildVaultDirectoryAggregates coll cat v batchSize d =
      if rowsNaming coll cat v d = [] then none
      else some (((rowsNaming coll cat v d).map contributionOf).foldl DirectoryRollup.add
        .zero) := by
  have hrows : (Keyset.after VisibleRow.path coll.lt [] (orderedRows coll cat v)).filter
      (fun r => r.visible && decide (d ∈ ancestorDirectories r.path)) =
      rowsNaming coll cat v d := by
    rw [rowsNaming, ← Keyset.after_filter]
    refine after_nil_eq coll _ fun r hr => ?_
    have := (mem_filter.mp hr).2
    simp only [Bool.and_eq_true, decide_eq_true_eq] at this
    exact ne_nil_of_mem_ancestorDirectories this.2
  rw [rebuildVaultDirectoryAggregates, ← foldl_flatten,
    flatten_iterVisibleFileContributionBatches, foldl_rolledAdd_apply, filter_contributions,
    hrows, foldl_some_add]
  simp

/-- The counted columns of a full rebuild. -/
lemma rolled_columns (cat : Catalog) (v : VaultId) (batchSize : Option ℤ) (d : Path) :
    (rebuildVaultDirectoryAggregates coll cat v batchSize d).map
        DirectoryRollup.toRollupColumns =
      if rowsNaming coll cat v d = [] then none
      else some (columnsOf (rowsNaming coll cat v d)) := by
  rw [rebuildVaultDirectoryAggregates_apply]
  split
  · rfl
  · rw [Option.map_some, foldl_add_columns]
    simp [DirectoryRollup.zero]

/-! ### Directories with plain names -/

/-- A name segment that is not empty and has no whitespace at its ends. -/
def CleanSegment (w : List Char) : Prop :=
  w ≠ [] ∧ (∀ c, w.head? = some c → isSpace c = false) ∧
    ∀ c, w.getLast? = some c → isSpace c = false

/-- A directory all of whose name segments are plain. -/
def CleanDirectory (d : Path) : Prop := ∀ w ∈ d.splitOn '/', CleanSegment w

/-- The first character of a text that does not start with a slash starts a segment. -/
lemma exists_segment_head (c : Char) (cs : List Char) (hc : c ≠ '/') :
    ∃ w ∈ (c :: cs).splitOn '/', w.head? = some c := by
  obtain ⟨w, ws, hw⟩ := exists_cons_of_ne_nil (splitOn_ne_nil '/' cs)
  refine ⟨c :: w, ?_, rfl⟩
  rw [splitOn_cons_eq_if_modifyHead, hw]
  simp [hc]

/-- The last character of a text that does not end with a slash ends a segment. -/
lemma exists_segment_getLast (cs : List Char) (c : Char) (hc : c ≠ '/') :
    ∃ w ∈ (cs ++ [c]).splitOn '/', w.getLast? = some c := by
  induction cs with
  | nil => exact ⟨[c], by simp [splitOn_cons_eq_if_modifyHead, hc], rfl⟩
  | cons x xs ih =>
      obtain ⟨w, hw, hlast⟩ := ih
      rw [cons_append, splitOn_cons_eq_if_modifyHead]
      obtain ⟨u, us, hu⟩ := exists_cons_of_ne_nil (splitOn_ne_nil '/' (xs ++ [c]))
      rw [hu] at hw ⊢
      split
      · exact ⟨w, mem_cons_of_mem _ hw, hlast⟩
      · -- only the first segment grows, and its end stays
        rcases mem_cons.mp hw with rfl | hw
        · refine ⟨x :: w, by simp, ?_⟩
          rw [getLast?_cons, hlast]
          rfl
        · exact ⟨w, by simp [hw], hlast⟩

lemma nil_mem_splitOn_of_ends (d cs : Path) (h : d = '/' :: cs ∨ d = cs ++ ['/']) :
    [] ∈ d.splitOn '/' := by
  rcases h with rfl | rfl
  · simp [splitOn_cons_eq_if_modifyHead]
  · rw [splitOn_eq_splitOnP, splitOnP_append_cons cs [] (by simp)]
    simp

/-- Normalising a directory with plain names leaves it alone. -/
lemma CleanDirectory.normalize_eq (h : CleanDirectory d) : normalize d = d := by
  have hends : ∀ c cs, d = c :: cs ∨ d = cs ++ [c] → c ≠ '/' := by
    rintro c cs hd rfl
    exact (h [] (nil_mem_splitOn_of_ends d cs hd)).1 rfl
  have hspace : Text.strip isSpace d = d := by
    refine Text.strip_eq_self _ _ ?_ ?_
    · rintro c cs rfl
      obtain ⟨w, hw, hhead⟩ := exists_segment_head c cs (hends c cs (Or.inl rfl))
      exact (h w hw).2.1 c hhead
    · rintro cs c rfl
      obtain ⟨w, hw, hlast⟩ := exists_segment_getLast cs c (hends c cs (Or.inr rfl))
      exact (h w hw).2.2 c hlast
  rw [normalize, hspace]
  refine Text.strip_eq_self _ _ ?_ ?_
  · intro c cs hd
    simpa using hends c cs (Or.inl hd)
  · intro cs c hd
    simpa using hends c cs (Or.inr hd)

lemma CleanDirectory.ne_nil (h : CleanDirectory d) : d ≠ [] := by
  rintro rfl
  exact (h [] (by simp)).1 rfl

/-- The counted columns a refresh stores for a directory whose name stripping keeps. -/
lemma refresh_columns (cat : Catalog) (v : VaultId) (stored : Rolled) (hnormal : normalize d = d)
    (hne : d ≠ []) :
    (rebuildDirectory coll cat v stored d d).map DirectoryRollup.toRollupColumns =
      if rowsBelow coll cat v d = [] then none
      else some (columnsOf (rowsBelow coll cat v d)) := by
  have hj : ∀ r ∈ rowsBelow coll cat v d, Joined r := by
    intro r hr
    rw [rowsBelow_eq] at hr
    exact joined_of_mem_orderedRows (mem_filter.mp hr).1
  rw [rebuildDirectory, hnormal]
  simp only [hne, if_false, Function.update_self, rollupSql, Option.map_map]
  rw [columnsSql_eq hj]
  split <;> rfl

/-! ### Files of a Vault -/

/-- The path at which an active file of the Vault counts. -/
def VaultFile.activePath (v : VaultId) (f : VaultFile) : Option Path :=
  if f.vaultId = v ∧ f.status = .active then f.currentPath else none

/-- The path of the file starts with the directory and a slash. -/
def VaultFile.below (v : VaultId) (d : Path) (f : VaultFile) : Bool :=
  (f.activePath v).any fun p => d ++ ['/'] <+: p

/-- The path of the file has the directory among its ancestors. -/
def VaultFile.naming (v : VaultId) (d : Path) (f : VaultFile) : Bool :=
  (f.activePath v).any fun p => d ∈ ancestorDirectories p

/-- The file is shown: there is a Local Copy or a version. -/
def VaultFile.visible (f : VaultFile) : Bool :=
  f.localCopy.any (fun lc => lc.presence = .present || lc.presence = .unsupported) ||
    f.latestVersion.isSome

lemma visible_rowAt (jobs : List Job) (f : VaultFile) (p : Path) :
    (rowAt jobs f p).visible = f.visible := by
  have hlocal : (rowAt jobs f p).localExists =
      f.localCopy.any fun lc => lc.presence = .present || lc.presence = .unsupported := by
    rw [VisibleRow.localExists, rowAt]
    cases f.localCopy <;> simp
  have hversion : (rowAt jobs f p).archiveVersionId.isSome = f.latestVersion.isSome := by
    rw [rowAt]
    cases f.latestVersion <;> rfl
  rw [VisibleRow.visible, hlocal, hversion]
  rfl

lemma fileRow_eq (jobs : List Job) (v : VaultId) (f : VaultFile) :
    fileRow jobs v f = (f.activePath v).map (rowAt jobs f) := by
  rw [fileRow, VaultFile.activePath]
  split <;> rfl

/-! ### Rows on one side only -/

/-- The visible rows of a Vault whose path satisfies one condition and not another. -/
def Catalog.rowsApart (cat : Catalog) (v : VaultId) (q q' : Path → Bool) : List VisibleRow :=
  (cat.rows v).filter fun r => (r.visible && q r.path) && !q' r.path

/-- The path starts with the directory and a slash: what the refresh counts. -/
def pathBelow (d p : Path) : Bool := decide (d ++ ['/'] <+: p)

/-- The path has the directory among its ancestors: what the full rebuild counts. -/
def pathNames (d p : Path) : Bool := decide (d ∈ ancestorDirectories p)

lemma rowsApart_eq_nil_iff {v : VaultId} {q q' : Path → Bool} :
    cat.rowsApart v q q' = [] ↔ ∀ f ∈ cat.files, f.visible →
      (f.activePath v).any q → (f.activePath v).any q' := by
  rw [Catalog.rowsApart, filter_eq_nil_iff, Catalog.rows]
  simp only [mem_filterMap, fileRow_eq, Option.map_eq_some_iff, Bool.and_eq_true,
    Bool.not_eq_true', not_and, Bool.not_eq_false, forall_exists_index, and_imp]
  constructor
  · intro h f hf hvis hq
    obtain ⟨p, hp, hq⟩ := (Option.any_eq_true _ _).mp hq
    have hrow := h (rowAt cat.jobs f p) f hf p hp rfl ((visible_rowAt cat.jobs f p).trans hvis) hq
    rw [hp]
    exact hrow
  · rintro h r f hf p hp rfl hvis hq
    have hany := h f hf ((visible_rowAt cat.jobs f p).symm.trans hvis) (by rw [hp]; exact hq)
    rwa [hp] at hany

/-- Columns added up. -/
def RollupColumns.plus (c c' : RollupColumns) : RollupColumns where
  itemCount := c.itemCount + c'.itemCount
  totalSize := c.totalSize + c'.totalSize
  localSize := c.localSize + c'.localSize
  cloudSize := c.cloudSize + c'.cloudSize
  stateCounts s := c.stateCounts s + c'.stateCounts s
  actionCounts a := c.actionCounts a + c'.actionCounts a

lemma RollupColumns.plus_left_cancel {c a b : RollupColumns} : c.plus a = c.plus b ↔ a = b := by
  refine ⟨fun h => ?_, congrArg c.plus⟩
  simp only [RollupColumns.ext_iff, RollupColumns.plus, Nat.add_left_cancel_iff] at h
  obtain ⟨hitems, htotal, hlocal, hcloud, hstates, hactions⟩ := h
  exact RollupColumns.ext hitems htotal hlocal hcloud
    (funext fun s => Nat.add_left_cancel (congrFun hstates s))
    (funext fun a => Nat.add_left_cancel (congrFun hactions a))

lemma columnsOf_append (rows rows' : List VisibleRow) :
    columnsOf (rows ++ rows') = (columnsOf rows).plus (columnsOf rows') := by
  simp [columnsOf, RollupColumns.plus]

lemma columnsOf_perm {rows' : List VisibleRow} (h : rows.Perm rows') :
    columnsOf rows = columnsOf rows' :=
  RollupColumns.ext h.length_eq (h.map _).sum_eq (h.map _).sum_eq (h.map _).sum_eq
    (funext fun _ => h.countP_eq _) (funext fun _ => h.countP_eq _)

/-- **The columns of a selection** in two parts. -/
lemma columnsOf_filter (rows : List VisibleRow) (q q' : VisibleRow → Bool) :
    columnsOf (rows.filter q) = (columnsOf (rows.filter fun r => q r && q' r)).plus
      (columnsOf (rows.filter fun r => q r && !q' r)) := by
  rw [← columnsOf_append]
  refine columnsOf_perm ((filter_append_perm q' (rows.filter q)).symm.trans ?_)
  rw [filter_filter, filter_filter]
  simp only [Bool.and_comm, List.Perm.refl]

lemma columnsOf_eq_nil_iff : columnsOf rows = columnsOf [] ↔ rows = [] :=
  ⟨fun h => length_eq_zero_iff.mp (congrArg RollupColumns.itemCount h),
    congrArg columnsOf⟩

/-! ### Refresh and full rebuild -/

/-- The current paths of the active files of a Vault. -/
def Catalog.activePaths (cat : Catalog) (v : VaultId) : List Path :=
  cat.files.filterMap fun f =>
    if f.vaultId = v ∧ f.status = .active then f.currentPath else none

/-- The refresh and the full rebuild store the same counted columns for a directory: the
same row, or none both. -/
def RefreshAgrees (cat : Catalog) (v : VaultId) (d : Path) : Prop :=
  ∀ (stored : Rolled) (batchSize : Option ℤ),
    (rebuildDirectory coll cat v stored d d).map DirectoryRollup.toRollupColumns =
      (rebuildVaultDirectoryAggregates coll cat v batchSize d).map
        DirectoryRollup.toRollupColumns

/-- A row is stored for some rows, so the columns tell whether there are any. -/
lemma stored_columns_eq_iff {rows' : List VisibleRow} :
    ((if rows = [] then none else some (columnsOf rows)) =
      if rows' = [] then none else some (columnsOf rows')) ↔ columnsOf rows = columnsOf rows' := by
  by_cases h : rows = [] <;> by_cases h' : rows' = []
  · simp [h, h']
  · simp only [h, h', if_true, if_false, reduceCtorEq, false_iff]
    exact fun heq => h' (columnsOf_eq_nil_iff.mp heq.symm)
  · simp only [h, h', if_true, if_false, reduceCtorEq, false_iff]
    exact fun heq => h (columnsOf_eq_nil_iff.mp heq)
  · simp [h, h']

/-- The two writers agree when the files only one of them counts add up to the same columns. -/
lemma refreshAgrees_iff_balance {v : VaultId} (hnormal : normalize d = d) (hne : d ≠ []) :
    RefreshAgrees coll cat v d ↔ columnsOf (cat.rowsApart v (pathBelow d) (pathNames d)) =
      columnsOf (cat.rowsApart v (pathNames d) (pathBelow d)) := by
  have hperm : (orderedRows coll cat v).Perm (cat.rows v) := perm_insertionSort _ _
  have hsplit : ∀ q q' : Path → Bool,
      columnsOf ((orderedRows coll cat v).filter fun r => r.visible && q r.path) =
        (columnsOf ((cat.rows v).filter fun r => (r.visible && q r.path) && q' r.path)).plus
          (columnsOf (cat.rowsApart v q q')) := fun q q' => by
    rw [columnsOf_perm (hperm.filter _), columnsOf_filter _ _ fun r => q' r.path]
    rfl
  have hcommon : ((cat.rows v).filter fun r => (r.visible && pathBelow d r.path) &&
      pathNames d r.path) = (cat.rows v).filter fun r => (r.visible && pathNames d r.path) &&
        pathBelow d r.path :=
    filter_congr fun r _ => Bool.and_right_comm _ _ _
  simp only [RefreshAgrees, refresh_columns coll cat v _ hnormal hne, rolled_columns, forall_const,
    stored_columns_eq_iff]
  rw [rowsBelow_eq, rowsNaming]
  show columnsOf ((orderedRows coll cat v).filter fun r => r.visible && pathBelow d r.path) =
    columnsOf ((orderedRows coll cat v).filter fun r => r.visible && pathNames d r.path) ↔ _
  rw [hsplit (pathBelow d) (pathNames d), hsplit (pathNames d) (pathBelow d), hcommon,
    RollupColumns.plus_left_cancel]

/-- Where no visible file is misfiled they agree. -/
lemma refreshAgrees_of_filed {v : VaultId} (hnormal : normalize d = d) (hne : d ≠ [])
    (hfiled : ∀ f ∈ cat.files, f.visible →
      (f.naming v d ↔ f.below v d)) : RefreshAgrees coll cat v d := by
  have hbelow : cat.rowsApart v (pathBelow d) (pathNames d) = [] :=
    rowsApart_eq_nil_iff.mpr fun f hf hvis => (hfiled f hf hvis).mpr
  have hnames : cat.rowsApart v (pathNames d) (pathBelow d) = [] :=
    rowsApart_eq_nil_iff.mpr fun f hf hvis => (hfiled f hf hvis).mp
  rw [refreshAgrees_iff_balance coll hnormal hne, hbelow, hnames]

/-- A Local Copy just observed on disk. -/
def freshCopy : LocalCopy where
  presence := .present
  fileType := .regular
  size := some 0
  mtimeNs := none
  plaintextSha256 := none
  matchedArchiveVersionId := none
  cloudOnlyVersionId := none
  lastSeenAt := none
  observedAt := 0
  contentObservedAt := none
  recoveredAt := none

/-- **Incremental refresh against full rebuild**, for a directory with plain names.  Where all
the visible files that are misfiled for it are misfiled the same way, the two writers store the
same counted columns, for every batch size, if and only if there is none: every visible active
file lists the directory among its ancestors exactly when its path starts with the directory and
a slash.  In general, if and only if those misfiled the one way and the other add up to the same
columns. -/
theorem refresh_eq_rebuild_iff (cat : Catalog) (v : VaultId) (d : Path) (hd : CleanDirectory d) :
    ((∀ f ∈ cat.files, f.visible = true → f.below v d = true → f.naming v d = true) ∨
        (∀ f ∈ cat.files, f.visible = true → f.naming v d = true → f.below v d = true) →
      (RefreshAgrees coll cat v d ↔
        ∀ f ∈ cat.files, f.visible = true → (f.naming v d = true ↔ f.below v d = true))) ∧
    (RefreshAgrees coll cat v d ↔ columnsOf (cat.rowsApart v (pathBelow d) (pathNames d)) =
      columnsOf (cat.rowsApart v (pathNames d) (pathBelow d))) := by
  have hbalance : RefreshAgrees coll cat v d ↔ _ :=
    refreshAgrees_iff_balance coll hd.normalize_eq hd.ne_nil
  refine ⟨fun hside => ?_, hbalance⟩
  rw [hbalance]
  rcases hside with hside | hside
  · have hnone : cat.rowsApart v (pathBelow d) (pathNames d) = [] :=
      rowsApart_eq_nil_iff.mpr hside
    rw [hnone, eq_comm, columnsOf_eq_nil_iff, rowsApart_eq_nil_iff]
    exact forall₃_congr fun f hf hvis => ⟨fun h => ⟨h, hside f hf hvis⟩, Iff.mp⟩
  · have hnone : cat.rowsApart v (pathNames d) (pathBelow d) = [] :=
      rowsApart_eq_nil_iff.mpr hside
    rw [hnone, columnsOf_eq_nil_iff, rowsApart_eq_nil_iff]
    exact forall₃_congr fun f hf hvis => ⟨fun h => ⟨hside f hf hvis, h⟩, Iff.mpr⟩

/-- A Vault with one file on disk, at the given path. -/
def oneFileCatalog (p : Path) : Catalog where
  files := [⟨1, 0, .active, some p, 0, [], some freshCopy, [], []⟩]
  jobs := []
  items := []
  ids_nodup := by simp
  paths_unique := by simp
  versions_unique := by simp [VaultFile.versionKeys]
  jobIds_nodup := nodup_nil

lemma cleanDirectory_a : CleanDirectory ['a'] := by
  have h : ['a'].splitOn '/' = [['a']] := by decide
  intro w hw
  rw [h, mem_singleton] at hw
  subst hw
  exact ⟨by simp, fun c hc => by simp at hc; subst hc; decide,
    fun c hc => by simp at hc; subst hc; decide⟩

/-- The file at `" a/b"` is counted for the directory `a` by the full rebuild only: its
path is stripped before it is split, the pattern of the refresh is not. -/
theorem refresh_ne_rebuild_of_leading_space :
    ¬ ∀ (coll : Collation) (cat : Catalog) (v : VaultId) (d : Path), CleanDirectory d →
      RefreshAgrees coll cat v d := by
  intro h
  have hag := h .codePoint (oneFileCatalog [' ', 'a', '/', 'b']) 0 ['a'] cleanDirectory_a
    (fun _ => none) none
  rw [refresh_columns _ _ _ _ cleanDirectory_a.normalize_eq cleanDirectory_a.ne_nil,
    rolled_columns] at hag
  have h1 : rowsBelow .codePoint (oneFileCatalog [' ', 'a', '/', 'b']) 0 ['a'] = [] := by decide
  have h2 : rowsNaming .codePoint (oneFileCatalog [' ', 'a', '/', 'b']) 0 ['a'] ≠ [] := by
    decide
  rw [if_pos h1, if_neg h2] at hag
  cases hag

/-- The file at `a/b` is on disk; nothing is left of the one at `" a/b"`. -/
def goneBesideCatalog : Catalog where
  files := [⟨1, 0, .active, some ['a', '/', 'b'], 0, [], some freshCopy, [], []⟩,
    ⟨2, 0, .active, some [' ', 'a', '/', 'b'], 0, [], none, [], []⟩]
  jobs := []
  items := []
  ids_nodup := by simp
  paths_unique := by simp [PathsDistinct]
  versions_unique := by simp [VaultFile.versionKeys]
  jobIds_nodup := nodup_nil

/-- A misfiled file that is not visible is in nobody's way. -/
theorem refresh_eq_rebuild_a_b :
    CleanDirectory ['a'] ∧ RefreshAgrees .codePoint goneBesideCatalog 0 ['a'] := by
  refine ⟨cleanDirectory_a, ((refresh_eq_rebuild_iff .codePoint goneBesideCatalog 0 ['a']
    cleanDirectory_a).1 (.inl ?_)).mpr ?_⟩
  · decide
  · decide

end Frostvault
