import Frostvault.Observation.Identities
import Frostvault.Observation.Shares

/-!
The marks of an observation cover what it changes.

Every operation but one marks the ancestors of every path it touches, or asks for a full
rebuild.  `mark_local_path_missing` touches a whole subtree and marks the path and the
directories above it: a directory below the path that loses a Local Copy keeps its old
counts, unless it was marked already.

* `marked_persist_iff`: what the marking functions add;
* `rebuild_mapLocalCopies`: a directory outside the touched paths keeps its rollup;
* `rebuild_markLocalPathMissing_iff`: when a rollup changes with a missing path;
* `marks_cover_iff`: **every changed directory is marked, exactly when no changed file lies in
  an unmarked directory below a missing path**.
-/

namespace Frostvault

open List

variable {coll : Collation} {batchSize : Option ℤ} {vaults : VaultTable} {ses : Session}

/-! ### Marked directories -/

/-- The directory has a mark, or its Vault waits for a full rebuild. -/
def Marked (db : Db) (v : VaultId) (d : Path) : Prop :=
  (∃ m ∈ db.dirty, m.vaultId = v ∧ m.path = d) ∨ db.status v = some .rebuildRequired

variable {g : VaultFile → Option LocalCopy} {v : VaultId}

lemma marked_persistDirtyDirectory_iff {db : Db} {w : VaultId} {d e : Path} :
    Marked (persistDirtyDirectory ses v db e) w d ↔ Marked db w d ∨ (w = v ∧ d = e) := by
  simp only [Marked, persistDirtyDirectory, Write.apply]
  split
  · rename_i hin
    obtain ⟨m, hm, hkey⟩ := mem_map.mp hin
    simp only [DirtyMark.key, Prod.mk.injEq] at hkey
    constructor
    · exact Or.inl
    · rintro (h | ⟨rfl, rfl⟩)
      · exact h
      · exact Or.inl ⟨m, hm, hkey.1, hkey.2.1⟩
  · constructor
    · rintro (⟨m, hm, hv, hd⟩ | h)
      · rcases mem_append.mp hm with hm | hm
        · exact Or.inl (Or.inl ⟨m, hm, hv, hd⟩)
        · rw [mem_singleton.mp hm] at hv hd
          exact Or.inr ⟨hv.symm, hd.symm⟩
      · exact Or.inl (Or.inr h)
    · rintro ((⟨m, hm, hv, hd⟩ | h) | ⟨rfl, rfl⟩)
      · exact Or.inl ⟨m, mem_append_left _ hm, hv, hd⟩
      · exact Or.inr h
      · exact Or.inl ⟨_, mem_append_right _ mem_cons_self, rfl, rfl⟩

/-- **What a list of marks adds.** -/
lemma marked_persist_iff {db : Db} {w : VaultId} {d : Path} (ds : List Path) :
    Marked (persistDirtyDirectories ses v db ds) w d ↔ Marked db w d ∨ (w = v ∧ d ∈ ds) := by
  induction ds generalizing db with
  | nil => simp [persistDirtyDirectories]
  | cons e ds ih =>
      rw [persistDirtyDirectories, foldl_cons, ← persistDirtyDirectories, ih,
        marked_persistDirtyDirectory_iff, mem_cons]
      tauto

lemma persist_catalog (ds : List Path) (v : VaultId) (db : Db) :
    (persistDirtyDirectories ses v db ds).catalog = db.catalog := by
  induction ds generalizing db with
  | nil => rfl
  | cons e ds ih =>
      rw [persistDirtyDirectories, foldl_cons, ← persistDirtyDirectories, ih]
      rfl

/-- The directories `mark_local_path_missing` marks. -/
def markedChain (p : Path) : List Path :=
  ancestorDirectories p ++
    if normalize p = [] then [] else normalize p :: ancestorDirectories (normalize p ++ ['/', '_'])

lemma marked_pathMissing_iff {db : Db} {w : VaultId} {d p : Path} :
    Marked (markDirectoryDirty ses v (markPathDirty ses v db p) p) w d ↔
      Marked db w d ∨ (w = v ∧ d ∈ markedChain p) := by
  rw [markDirectoryDirty]
  split
  · rename_i hn
    rw [markPathDirty, marked_persist_iff, markedChain, if_pos hn, append_nil]
  · rename_i hn
    rw [marked_persist_iff, markPathDirty, marked_persist_iff, markedChain, if_neg hn,
      mem_append]
    tauto

/-! ### Rollups that stay -/

variable {cat cat' : Catalog} {w : VaultId} {d : Path}

/-- A directory without a touched file keeps its rollup. -/
lemma rebuild_mapLocalCopies (h : ∀ f ∈ cat.files, f.vaultId = w → g f ≠ f.localCopy →
      ∀ p, f.currentPath = some p → d ∉ ancestorDirectories p) :
    rebuildVaultDirectoryAggregates coll cat w batchSize d =
      rebuildVaultDirectoryAggregates coll (cat.mapLocalCopies g) w batchSize d := by
  refine rebuild_congr_of_shares batchSize ?_
  rw [shares, shares]
  refine (filterMap_map ..).trans (filterMap_congr fun f hf => ?_)
  simp only [Function.comp_apply]
  by_cases hv : f.vaultId = w
  · by_cases hg : g f = f.localCopy
    · rw [hg]
      rfl
    · rw [share_eq_none_of_outside (h f hf hv hg), share_eq_none_of_outside]
      exact h f hf hv hg
  · rw [share_eq_none_of_vaultId (f := f) hv]
    exact share_eq_none_of_vaultId hv

/-- All rollups of all Vaults are the same. -/
def SameRollups (cat cat' : Catalog) : Prop :=
  ∀ (coll : Collation) (batchSize : Option ℤ) (w : VaultId) (d : Path),
    rebuildVaultDirectoryAggregates coll cat w batchSize d =
      rebuildVaultDirectoryAggregates coll cat' w batchSize d

lemma SameRollups.trans {cat'' : Catalog} (h : SameRollups cat cat') (h' : SameRollups cat' cat'') :
    SameRollups cat cat'' :=
  fun coll batchSize w d => (h coll batchSize w d).trans (h' coll batchSize w d)

lemma sameRollups_extended {paths : List Path} {created : List VaultFile}
    (h : Extended v paths cat cat' created) : SameRollups cat cat' := by
  intro coll batchSize w d
  refine rebuild_congr_of_shares batchSize ?_
  rw [shares, shares, h.files, h.jobs, filterMap_append]
  have hnone : created.filterMap (share cat.jobs w d) = [] := by
    rw [filterMap_eq_nil_iff]
    intro g hg
    obtain ⟨p, -, -, hb⟩ := h.blank g hg
    cases hr : fileRow cat.jobs w g with
    | none => simp [share, hr]
    | some r =>
        obtain ⟨-, -, -, hrow⟩ := fileRow_eq_some hr
        have hvis : r.visible = false := by
          rw [hrow]
          simp [rowAt, VisibleRow.visible, VisibleRow.localExists, hb.localCopy,
            VaultFile.latestVersion, hb.versions, newest]
        simp [share, hr, contributionFromRow, hvis]
  rw [hnone, append_nil]

/-- Jobs that are rewritten, uploads apart, leave the last upload of every file alone. -/
lemma failedUploadSql_map {jobs : List Job} {g : Job → Job}
    (hfile : ∀ j, (g j).vaultFileId = j.vaultFileId) (haction : ∀ j, (g j).action = j.action)
    (hkeep : ∀ j ∈ jobs, j.action = .upload → g j = j) (file : FileId) :
    failedUploadSql (jobs.map g) file = failedUploadSql jobs file := by
  have hfilter : (jobs.map g).filter
        (fun j => decide (j.vaultFileId = file ∧ j.action = .upload)) =
      jobs.filter fun j => decide (j.vaultFileId = file ∧ j.action = .upload) := by
    induction jobs with
    | nil => rfl
    | cons j js ih =>
        have ih := ih fun k hk => hkeep k (mem_cons_of_mem _ hk)
        rw [map_cons, filter_cons, filter_cons, ih, haction, hfile]
        by_cases hup : j.action = .upload
        · rw [hkeep j mem_cons_self hup]
        · simp [hup]
  rw [failedUploadSql, failedUploadSql, latestUpload, latestUpload, hfilter]

/-- Cancelling `cloud-purge` Jobs leaves the last upload of every file alone. -/
lemma failedUploadSql_cancelRows {rows : List Job} (hrows : ∀ j ∈ rows, j ∈ cat.jobs)
    (hact : ∀ j ∈ rows, j.action = .cloudPurge) (file : FileId) :
    failedUploadSql (cancelRows cat rows).jobs file = failedUploadSql cat.jobs file := by
  have hr := rewrites_cancelRows cat rows
  rw [hr.jobs]
  refine failedUploadSql_map hr.job_file hr.job_action (fun j hj hup => ?_) file
  rw [cancelJob, if_neg]
  intro hin
  obtain ⟨k, hk, hid⟩ := mem_map.mp hin
  rw [← cat.job_eq_of_id_eq (hrows k hk) hj hid, hact k hk] at hup
  exact JobAction.noConfusion hup

/-- Revoked deletions do not show in the folders. -/
lemma sameRollups_cancelReappearedDeletions {ids : List FileId}
    (h : cancelReappearedDeletions vaults cat v ids = some cat') : SameRollups cat cat' := by
  refine cancelReappearedDeletions_induction (P := SameRollups cat) (fun _ _ _ _ => rfl) ?_ h
  intro c gid c' hc hcancel
  obtain rfl := cancelCloudDeletion_eq hcancel
  refine hc.trans fun coll batchSize w d => rebuild_congr_of_shares batchSize ?_
  rw [shares, shares, cancelRows_files]
  refine filterMap_congr fun f _ => share_congr_jobs ?_
  refine failedUploadSql_cancelRows (fun j hj => (mem_filter.mp hj).1) (fun j hj => ?_) _
  have := (mem_filter.mp hj).2
  simp only [Bool.and_eq_true, decide_eq_true_eq] at this
  exact this.2

/-! ### The operations -/

lemma rebuild_observeLocalCopy {e : LocalEntry} {seenAt recoveredAt : Option Stamp}
    (h : observeLocalCopy vaults cat v e seenAt recoveredAt = some cat')
    (hd : w = v → d ∉ ancestorDirectories e.path) :
    rebuildVaultDirectoryAggregates coll cat w batchSize d =
      rebuildVaultDirectoryAggregates coll cat' w batchSize d := by
  obtain ⟨created, hext, hres⟩ := getOrCreateFile_spec cat v e.path e.observedAt
  rw [sameRollups_extended hext coll batchSize w d, ← sameRollups_cancelReappearedDeletions h coll batchSize w d]
  refine rebuild_mapLocalCopies fun f hf hv hne p hp => ?_
  by_cases hid : f.id = (getOrCreateFile cat v e.path e.observedAt).2
  · obtain ⟨hfv, hfp⟩ := hres.currentPath hf hid
    cases hfp.symm.trans hp
    exact hd (hv.symm.trans hfv)
  · exact absurd (if_neg hid) hne

/-- The observed paths of a batch are the only ones touched. -/
lemma rebuild_observeLocalCopiesBatch {entries : List LocalEntry}
    {seenAt : Option Stamp} (h : observeLocalCopiesBatch vaults cat v entries seenAt = some cat')
    (hd : w = v → ∀ o ∈ lastByPath entries, d ∉ ancestorDirectories o.path) :
    rebuildVaultDirectoryAggregates coll cat w batchSize d =
      rebuildVaultDirectoryAggregates coll cat' w batchSize d := by
  unfold observeLocalCopiesBatch at h
  split at h
  · cases h
    rfl
  · rename_i e es hes
    obtain ⟨created, hext, hres, -⟩ :=
      resolveOrCreateFiles_spec cat v ((e :: es).map LocalEntry.path) e.observedAt
    rw [sameRollups_extended hext coll batchSize w d, ← sameRollups_cancelReappearedDeletions h coll batchSize w d]
    refine rebuild_mapLocalCopies fun f hf hv hne p hp => ?_
    dsimp only at hne
    split at hne
    · rename_i o ho
      have hmem := mem_of_find?_eq_some ho
      have hany := find?_some ho
      obtain ⟨pid, hpid, hboth⟩ := any_eq_true.mp hany
      simp only [Bool.and_eq_true, decide_eq_true_eq] at hboth
      obtain ⟨hfv, hfp⟩ := (hres pid hpid).currentPath hf hboth.2.symm
      obtain rfl : o.path = p := by
        rw [← hboth.1]
        exact Option.some.inj (hfp.symm.trans hp)
      exact hd (hv.symm.trans hfv) o (hes ▸ hmem)
    · exact absurd rfl hne

/-- A changed rollup names a touched file below the directory. -/
lemma exists_touched (h : rebuildVaultDirectoryAggregates coll cat w batchSize d ≠
      rebuildVaultDirectoryAggregates coll (cat.mapLocalCopies g) w batchSize d) :
    ∃ f ∈ cat.files, f.vaultId = w ∧ g f ≠ f.localCopy ∧
      ∃ p, f.currentPath = some p ∧ d ∈ ancestorDirectories p := by
  by_contra hno
  refine h (rebuild_mapLocalCopies fun f hf hv hne p hp hd => hno ?_)
  exact ⟨f, hf, hv, hne, p, hp, hd⟩

lemma markFileIdDirty_catalog (v : VaultId) (db : Db) (id : FileId) :
    (markFileIdDirty ses v db id).catalog = db.catalog := by
  unfold markFileIdDirty
  split
  · exact persist_catalog _ _ _
  · rfl

lemma markOwned_catalog (db : Db) (id : FileId) : (markOwned ses db id).catalog = db.catalog := by
  unfold markOwned
  split
  · exact markFileIdDirty_catalog _ _ _
  · rfl

lemma markDirectoryDirty_catalog (v : VaultId) (db : Db) (p : Path) :
    (markDirectoryDirty ses v db p).catalog = db.catalog := by
  rw [markDirectoryDirty]
  split
  · rfl
  · exact persist_catalog _ _ _

/-- The ancestors of a file are marked through its id. -/
lemma marked_markOwned {db : Db} {f : VaultFile} (hf : f ∈ db.catalog.files) {p : Path}
    (hp : f.currentPath = some p) (hd : d ∈ ancestorDirectories p) :
    Marked (markOwned ses db f.id) f.vaultId d := by
  have hid := db.catalog.file?_eq_of_mem hf
  simp only [markOwned, hid, markFileIdDirty, Option.bind_some, if_true, hp]
  exact (marked_persist_iff _).mpr (Or.inr ⟨rfl, hd⟩)

/-- An operation on the Local Copy of one file marks what it changes. -/
lemma marked_of_oneCopy {db : Db} {id : FileId} (hg : ∀ f, f.id ≠ id → g f = f.localCopy)
    (h : rebuildVaultDirectoryAggregates coll db.catalog w batchSize d ≠
      rebuildVaultDirectoryAggregates coll (db.catalog.mapLocalCopies g) w batchSize d) :
    Marked (markOwned ses { db with catalog := db.catalog.mapLocalCopies g } id) w d := by
  obtain ⟨f, hf, rfl, hne, p, hp, hd⟩ := exists_touched h
  obtain rfl : f.id = id := by
    by_contra hid
    exact hne (hg f hid)
  exact marked_markOwned (f := f.withCopy (g f)) (mem_map_of_mem hf) hp hd

/-- A confirmed rename changes the directories of the two paths. -/
lemma rebuild_renameFiles {m p : VaultFile} {newPath : Path} {at_ : Stamp} (hm : m ∈ cat.files)
    (hp : p ∈ cat.files) (hv : p.vaultId = m.vaultId) (hpath : p.currentPath = some newPath)
    (hold : w = m.vaultId → ∀ q, m.currentPath = some q → d ∉ ancestorDirectories q)
    (hnew : w = m.vaultId → d ∉ ancestorDirectories newPath) :
    rebuildVaultDirectoryAggregates coll cat w batchSize d =
      rebuildVaultDirectoryAggregates coll (cat.renameFiles m p newPath at_ hp hv hm hpath) w
        batchSize d := by
  refine rebuild_congr_of_shares batchSize ?_
  rw [shares, shares]
  refine (filterMap_map ..).trans (filterMap_congr fun f hf => ?_)
  rw [Function.comp_apply]
  by_cases hfw : f.vaultId = w
  · unfold renamePair
    split
    · rename_i hid
      obtain rfl := cat.eq_of_id_eq hf hp hid
      have hw : w = m.vaultId := hfw.symm.trans hv
      rw [share_eq_none_of_outside, share_eq_none_of_outside]
      · intro q hq
        cases hpath.symm.trans hq
        exact hnew hw
      · intro q hq
        simp [VaultFile.retire, VaultFile.closePath] at hq
    · split
      · rename_i hid
        obtain rfl := cat.eq_of_id_eq hf hm hid
        rw [share_eq_none_of_outside, share_eq_none_of_outside]
        · exact hold hfw.symm
        · intro q hq
          cases hq
          exact hnew hfw.symm
      · rfl
  · rw [share_eq_none_of_vaultId (f := f) hfw, share_eq_none_of_vaultId]
    rw [renamePair_vaultId]
    exact hfw

lemma confirmFileRename_spec {id : FileId} {newPath : Path} {at_ : Stamp}
    (h : confirmFileRename vaults cat v id newPath at_ = some cat') :
    ∃ (m p : VaultFile) (hm : m ∈ cat.files) (hp : p ∈ cat.files)
      (hv : p.vaultId = m.vaultId) (hpath : p.currentPath = some newPath),
      m.id = id ∧ m.vaultId = v ∧ cat' = cat.renameFiles m p newPath at_ hp hv hm hpath := by
  unfold confirmFileRename at h
  split at h
  · split at h
    · cases h
    · rename_i m p digest hload
      split at h
      · cases h
        obtain ⟨hm, hp, hid, hmv, hpv, hpath⟩ := loadRenameCandidate_spec hload
        exact ⟨m, p, hm, hp, hpv.trans hmv.symm, hpath, hid, hmv, rfl⟩
      · cases h
  · cases h

/-! ### A missing path -/

/-- The contribution of a file at a path changes when its Local Copy goes missing. -/
def losesShare (jobs : List Job) (f : VaultFile) (q : Path) (at_ : Stamp) : Bool :=
  contributionFromRow (rowAt jobs (f.withCopy (f.localCopy.map (LocalCopy.gone · at_))) q) ≠
    contributionFromRow (rowAt jobs f q)

/-- The file `mark_local_path_missing` leaves in place of `f`. -/
def goneBelow (v : VaultId) (p : Path) (at_ : Stamp) (f : VaultFile) : VaultFile :=
  f.withCopy (if f.vaultId = v ∧ f.currentPath.any (atOrBelow p) = true then
    f.localCopy.map (LocalCopy.gone · at_) else f.localCopy)

lemma files_markLocalPathMissing (cat : Catalog) (v : VaultId) (p : Path) (at_ : Stamp) :
    (markLocalPathMissing cat v p at_).files = cat.files.map (goneBelow v p at_) := rfl

lemma share_of_active {jobs : List Job} {f : VaultFile} {q : Path}
    (hv : f.vaultId = v) (hs : f.status = .active) (hq : f.currentPath = some q) :
    share jobs v d f =
      if d ∈ ancestorDirectories q then contributionFromRow (rowAt jobs f q) else none := by
  simp [share, fileRow, hv, hs, hq, rowAt]

/-- A file that is not shown in the Vault has no share, whatever its Local Copy. -/
lemma share_withCopy_of_hidden {jobs : List Job} {f : VaultFile}
    (h : ¬ (f.vaultId = w ∧ f.status = .active ∧ ∃ q, f.currentPath = some q))
    (lc : Option LocalCopy) : share jobs w d (f.withCopy lc) = none := by
  cases hr : fileRow jobs w (f.withCopy lc) with
  | none => simp [share, hr]
  | some r =>
      obtain ⟨h1, h2, h3, -⟩ := fileRow_eq_some hr
      exact absurd ⟨h1, h2, r.path, h3⟩ h

/-- A missing path can only lower the weight of a share. -/
lemma shareWeight_goneBelow (jobs : List Job) (v : VaultId) (p : Path) (at_ : Stamp)
    (f : VaultFile) :
    shareWeight (share jobs w d (goneBelow v p at_ f)) ≤ shareWeight (share jobs w d f) := by
  by_cases hshow : f.vaultId = w ∧ f.status = .active ∧ ∃ q, f.currentPath = some q
  · obtain ⟨hv, hs, q, hq⟩ := hshow
    rw [share_of_active hv hs hq, share_of_active (f := goneBelow v p at_ f) hv hs hq]
    split
    · unfold goneBelow
      split
      · exact (copyWeight_gone jobs f q at_ f.localCopy).1
      · exact le_rfl
    · exact le_rfl
  · have h1 : share jobs w d f = none := share_withCopy_of_hidden hshow f.localCopy
    have h2 : share jobs w d (goneBelow v p at_ f) = none := share_withCopy_of_hidden hshow _
    rw [h1, h2]

/-- **When a missing path changes a rollup**: a file in the directory loses its share. -/
lemma rebuild_markLocalPathMissing_iff {p : Path} {at_ : Stamp} :
    rebuildVaultDirectoryAggregates coll cat w batchSize d ≠
        rebuildVaultDirectoryAggregates coll (markLocalPathMissing cat v p at_) w batchSize d ↔
      w = v ∧ ∃ f ∈ cat.files, ∃ q ∈ f.currentPath, f.vaultId = v ∧ f.status = .active ∧
        atOrBelow p q ∧ losesShare cat.jobs f q at_ ∧ d ∈ ancestorDirectories q := by
  constructor
  · intro hne
    by_contra hno
    refine hne (rebuild_congr_of_shares batchSize ?_)
    rw [shares, shares, files_markLocalPathMissing]
    refine (filterMap_map ..).trans (filterMap_congr fun f hf => ?_)
    rw [Function.comp_apply]
    show share cat.jobs w d (goneBelow v p at_ f) = share cat.jobs w d f
    by_cases hshow : f.vaultId = w ∧ f.status = .active ∧ ∃ q, f.currentPath = some q
    · obtain ⟨hv, hs, q, hq⟩ := hshow
      rw [share_of_active hv hs hq, share_of_active (f := goneBelow v p at_ f) hv hs hq]
      split
      · rename_i hd
        unfold goneBelow
        split
        · rename_i htouch
          by_contra hloss
          refine hno ⟨hv.symm.trans htouch.1, f, hf, q, hq, htouch.1, hs, ?_, ?_, hd⟩
          · simpa [hq] using htouch.2
          · exact decide_eq_true hloss
        · rfl
      · rfl
    · exact (share_withCopy_of_hidden hshow _).trans
        (share_withCopy_of_hidden hshow f.localCopy).symm
  · rintro ⟨rfl, f, hf, q, hq, hv, hs, hbelow, hloss, hd⟩ heq
    -- equal rollups weigh the same, and no file has gained weight: each weighs the same
    have hsum := sum_shareWeight_of_rebuild_eq heq
    rw [files_markLocalPathMissing, map_map] at hsum
    have hweight := eq_of_sum_eq_of_le
      (fun g _ => shareWeight_goneBelow cat.jobs w p at_ g) hsum f hf
    have htouch : f.vaultId = w ∧ f.currentPath.any (atOrBelow p) :=
      ⟨hv, by rw [hq]; exact hbelow⟩
    rw [share_of_active hv hs hq, share_of_active (f := goneBelow w p at_ f) hv hs hq,
      if_pos hd, if_pos hd, goneBelow, if_pos htouch] at hweight
    exact of_decide_eq_true hloss ((copyWeight_gone cat.jobs f q at_ f.localCopy).2 hweight)

/-! ### All operations -/

instance (db : Db) (v : VaultId) (d : Path) : Decidable (Marked db v d) :=
  inferInstanceAs (Decidable (_ ∨ _))

/-- **The marks reach every changed file.**  Only a missing path can leave one out: a file
below it that loses its share and lies in a directory that is neither marked by the operation
nor marked before. -/
def CoversChanges (db : Db) : LocalOp → Prop
  | .pathMissing v p at_ => ∀ f ∈ db.catalog.files, ∀ q ∈ f.currentPath, f.vaultId = v →
      f.status = .active → atOrBelow p q = true → losesShare db.catalog.jobs f q at_ = true →
        ∀ d ∈ ancestorDirectories q, d ∈ markedChain p ∨ Marked db v d
  | _ => True

instance (db : Db) : (op : LocalOp) → Decidable (CoversChanges db op)
  | .pathMissing v p at_ =>
      decidable_of_iff (∀ f ∈ db.catalog.files, ∀ q ∈ f.currentPath, ¬(f.vaultId = v ∧
        f.status = .active ∧ atOrBelow p q = true ∧ losesShare db.catalog.jobs f q at_ = true) ∨
          ∀ d ∈ ancestorDirectories q, d ∈ markedChain p ∨ Marked db v d)
        (by simp only [CoversChanges, ← imp_iff_not_or, and_imp])
  | .observe .. | .observeBatch .. | .copyMissing .. | .copyReplaced .. | .unseenMissing ..
  | .fingerprint .. | .rename .. => isTrue trivial

/-- **Observations mark what they change.**  Every directory whose full-rebuild rollup differs
before and after the operation is marked after it, or its Vault waits for a full rebuild,
exactly when the operation covers its changes. -/
theorem marks_cover_iff (coll : Collation) (batchSize : Option ℤ) (vaults : VaultTable)
    (ses : Session) (db db' : Db) (op : LocalOp) (hrun : op.run vaults ses db = some db') :
    (∀ w d, rebuildVaultDirectoryAggregates coll db.catalog w batchSize d ≠
        rebuildVaultDirectoryAggregates coll db'.catalog w batchSize d → Marked db' w d) ↔
      CoversChanges db op := by
  cases op with
  | observe v e seenAt recoveredAt =>
      obtain ⟨cat', hcat, rfl⟩ := Option.map_eq_some_iff.mp hrun
      refine iff_of_true (fun w d hne => ?_) trivial
      rw [markPathDirty, persist_catalog] at hne
      rw [markPathDirty, marked_persist_iff]
      by_contra hno
      refine hne (rebuild_observeLocalCopy hcat fun hw hd => hno ?_)
      exact Or.inr ⟨hw, hd⟩
  | observeBatch v entries seenAt =>
      obtain ⟨cat', hcat, rfl⟩ := Option.map_eq_some_iff.mp hrun
      refine iff_of_true (fun w d hne => ?_) trivial
      rw [markPathsDirty, persist_catalog] at hne
      rw [markPathsDirty, marked_persist_iff, mem_insertionSort, mem_dedup,
        mem_flatMap]
      by_contra hno
      refine hne (rebuild_observeLocalCopiesBatch hcat fun hw o ho hd => hno ?_)
      exact Or.inr ⟨hw, o.path, mem_map_of_mem ho, hd⟩
  | copyMissing id at_ =>
      cases hrun
      refine iff_of_true (fun w d hne => ?_) trivial
      rw [markOwned_catalog] at hne
      exact marked_of_oneCopy (fun f hf => if_neg hf) hne
  | copyReplaced id t size mtimeNs at_ =>
      cases hrun
      refine iff_of_true (fun w d hne => ?_) trivial
      rw [markOwned_catalog] at hne
      exact marked_of_oneCopy (fun f hf => if_neg hf) hne
  | pathMissing v p at_ =>
      cases hrun
      simp only [marked_pathMissing_iff]
      simp only [markDirectoryDirty_catalog, markPathDirty, persist_catalog,
        rebuild_markLocalPathMissing_iff]
      constructor
      · intro h f hf q hq hv hs hbelow hloss d hd
        rcases h v d ⟨rfl, f, hf, q, hq, hv, hs, hbelow, hloss, hd⟩ with hm | ⟨-, hm⟩
        · exact Or.inr hm
        · exact Or.inl hm
      · rintro h w d ⟨rfl, f, hf, q, hq, hv, hs, hbelow, hloss, hd⟩
        rcases h f hf q hq hv hs hbelow hloss d hd with hm | hm
        · exact Or.inr ⟨rfl, hm⟩
        · exact Or.inl hm
  | unseenMissing v seenAt observedAt scanStartedAt =>
      cases hrun
      refine iff_of_true (fun w d hne => ?_) trivial
      obtain ⟨f, -, hv, htouch, -⟩ := exists_touched hne
      have hw : w = v := by
        by_contra hw
        exact htouch (if_neg fun h => hw (hv.symm.trans h))
      subst hw
      exact Or.inr (Function.update_self ..)
  | fingerprint v p digest matched =>
      cases hrun
      refine iff_of_true (fun w d hne => ?_) trivial
      rw [markPathDirty, persist_catalog] at hne
      rw [markPathDirty, marked_persist_iff]
      obtain ⟨f, -, hv, htouch, q, hq, hd⟩ := exists_touched hne
      have hat : f.vaultId = v ∧ f.currentPath = some p := by
        by_contra hno
        exact htouch (if_neg hno)
      cases hat.2.symm.trans hq
      exact Or.inr ⟨hv.symm.trans hat.1, hd⟩
  | rename v id newPath at_ =>
      obtain ⟨cat', hcat, rfl⟩ := Option.map_eq_some_iff.mp hrun
      refine iff_of_true (fun w d hne => ?_) trivial
      obtain ⟨m, p, hm, hp, hpv, hpath, hid, hmv, rfl⟩ := confirmFileRename_spec hcat
      rw [markPathsDirty, persist_catalog] at hne
      rw [markPathsDirty, marked_persist_iff, mem_insertionSort, mem_dedup,
        mem_flatMap]
      by_contra hno
      refine hne (rebuild_renameFiles hm hp hpv hpath (fun hw q hq hd => hno ?_)
        fun hw hd => hno ?_)
      · refine Or.inr ⟨hw.trans hmv, q, ?_, hd⟩
        rw [← hid, db.catalog.file?_eq_of_mem hm, Option.bind_some, hq]
        simp
      · exact Or.inr ⟨hw.trans hmv, newPath, by simp, hd⟩

/-- A Vault with one file on disk and an aggregate status of `ready`. -/
def oneFileDb (p : Path) : Db where
  vaults := [0]
  catalog := oneFileCatalog p
  dirty := []
  status := fun _ => some .ready
  aggregates := fun _ _ => none

/-- The whole folder `a` goes missing: `a/b` loses its only file and is not marked. -/
theorem directory_below_missing_path_unmarked :
    ¬ ∀ (coll : Collation) (batchSize : Option ℤ) (vaults : VaultTable) (ses : Session)
      (db db' : Db) (op : LocalOp), op.run vaults ses db = some db' →
      ∀ w d, rebuildVaultDirectoryAggregates coll db.catalog w batchSize d ≠
        rebuildVaultDirectoryAggregates coll db'.catalog w batchSize d → Marked db' w d := by
  intro hall
  have hmarked := hall .codePoint none (fun _ => none) ⟨1, fun _ => 0⟩
    (oneFileDb ['a', '/', 'b', '/', 'c']) _ (.pathMissing 0 ['a'] 5) rfl 0 ['a', '/', 'b']
  rw [markDirectoryDirty_catalog, markPathDirty, persist_catalog] at hmarked
  exact absurd (hmarked (rebuild_markLocalPathMissing_iff.mpr (by decide))) (by decide)

/-- A single file that goes missing lies below marked directories only. -/
theorem marks_cover_a_b : ∃ cat,
    markLocalPathMissing (oneFileCatalog ['a', '/', 'b']) 0 ['a', '/', 'b'] 5 = cat ∧
    ∀ w d, rebuildVaultDirectoryAggregates .codePoint (oneFileDb ['a', '/', 'b']).catalog w none d ≠
        rebuildVaultDirectoryAggregates .codePoint cat w none d →
      Marked (markDirectoryDirty ⟨1, fun _ => 0⟩ 0 (markPathDirty ⟨1, fun _ => 0⟩ 0
        { oneFileDb ['a', '/', 'b'] with catalog := cat } ['a', '/', 'b']) ['a', '/', 'b']) w d := by
  have h := (marks_cover_iff .codePoint none (fun _ => none) ⟨1, fun _ => 0⟩
    (oneFileDb ['a', '/', 'b']) _ (.pathMissing 0 ['a', '/', 'b'] 5) rfl).mpr (by decide)
  rw [markDirectoryDirty_catalog, markPathDirty, persist_catalog] at h
  exact ⟨_, rfl, h⟩

end Frostvault
