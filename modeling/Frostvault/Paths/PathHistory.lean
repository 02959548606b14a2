import Frostvault.Paths.RenameConfirmation

/-!
Path History stays functional (`app/catalog.py`, `app/storage.py`).

Whatever the sequence of mints, moves, confirmations and compensations, a Vault File has at most
one current path and a path of a Vault is current for at most one file.  The index on the paths
keeps the second half; the first half is what the functions do by themselves: a new path goes to
a new identity, or to a file whose current path was closed just before.

* `Functional`: the invariant;
* `Functional.insertPath`, `Functional.close`, `Functional.delete`: the statements;
* `Functional.getOrCreateFile`, `Functional.confirmFileRename`, ..: the functions;
* `PathOp`, `step`: the sequences;
* `path_history_functional`: the result.
-/

namespace Frostvault

open List Table

namespace Tables

/-- **The invariant**: both partial indexes hold, and every path belongs to a file. -/
structure Functional (t : Tables) : Prop where
  paths : Unique FilePathRow.pathKey t.paths
  files : Unique FilePathRow.fileKey t.paths
  owned : ∀ r ∈ t.paths, r.vaultFileId ∈ t.files.map FileRow.id

variable {t t' : Tables} {fileIndex : Bool} {ses : Session} {v : VaultId} {p : Path}
  {id uuid : FileId} {at_ : Stamp}

/-! ### Frames -/

/-- Only the ids of the files and their paths matter. -/
lemma Functional.congr (h : t.Functional)
    (hfiles : t'.files.map FileRow.id = t.files.map FileRow.id) (hpaths : t'.paths = t.paths) :
    t'.Functional where
  paths := hpaths ▸ h.paths
  files := hpaths ▸ h.files
  owned := by
    rw [hpaths, hfiles]
    exact h.owned

variable (ses v) in
/-- Marks touch neither files nor paths. -/
lemma persistDirtyDirectories_rows (ds : List Path) (t : Tables) :
    (ds.foldl (persistDirtyDirectory ses v) t).files = t.files ∧
      (ds.foldl (persistDirtyDirectory ses v) t).paths = t.paths := by
  induction ds generalizing t with
  | nil => exact ⟨rfl, rfl⟩
  | cons d ds ih => exact ih _

variable (ses v) in
lemma Functional.markPathDirty (h : t.Functional) (p : Path) :
    (t.markPathDirty ses v p).Functional := by
  obtain ⟨hfiles, hpaths⟩ := persistDirtyDirectories_rows ses v
    (ancestorDirectories p) t
  exact h.congr (congrArg _ hfiles) hpaths

lemma Functional.markPathsDirty (h : t.Functional) (paths : List Path) :
    (t.markPathsDirty ses v paths).Functional := by
  obtain ⟨hfiles, hpaths⟩ := persistDirtyDirectories_rows ses v
    ((paths.flatMap ancestorDirectories).dedup.insertionSort (· ≤ ·)) t
  exact h.congr (congrArg _ hfiles) hpaths

lemma Functional.markFileIdDirty (h : t.Functional) (id : FileId) :
    (markFileIdDirty ses v t id).Functional := by
  rw [Tables.markFileIdDirty]
  split
  · exact h.markPathDirty ses v _
  · exact h

/-! ### Statements -/

variable {r : FilePathRow} {see : ℕ → Tables → Tables}

/-- The key of a current row is its path, or its file. -/
lemma fileKey_eq_some :
    r.fileKey = some id ↔ r.validTo = none ∧ r.vaultFileId = id := by
  simp [FilePathRow.fileKey]

lemma pathKey_eq_some :
    r.pathKey = some (v, p) ↔ r.validTo = none ∧ r.vaultId = v ∧ r.path = p := by
  simp [FilePathRow.pathKey]

lemma closeRow_keys (at_ : Stamp) (r : FilePathRow) :
    (closeRow at_ r).pathKey = none ∧ (closeRow at_ r).fileKey = none := ⟨rfl, rfl⟩

/-- **Closing paths** keeps the invariant. -/
lemma Functional.close (h : t.Functional) (cond : FilePathRow → Bool) (at_ : Stamp) :
    ({ t with paths := (update cond (closeRow at_) t.paths).1 } : Tables).Functional where
  paths := h.paths.map fun r _ => by
    split
    · exact Or.inr (closeRow_keys at_ r).1
    · exact Or.inl rfl
  files := h.files.map fun r _ => by
    split
    · exact Or.inr (closeRow_keys at_ r).2
    · exact Or.inl rfl
  owned := by
    intro r hr
    obtain ⟨s, hs, rfl⟩ := mem_map.mp hr
    split
    · exact h.owned s hs
    · exact h.owned s hs

/-- Once every current path of a file is closed, none is left. -/
lemma fileKey_ne_of_close {cond : FilePathRow → Bool}
    (hall : ∀ r ∈ t.paths, r.fileKey = some id → cond r) :
    ∀ r ∈ (update cond (closeRow at_) t.paths).1, r.fileKey ≠ some id := by
  intro r hr hkey
  obtain ⟨s, hs, rfl⟩ := mem_map.mp hr
  split at hkey
  · exact absurd hkey (by simp [closeRow_keys])
  · rename_i hcond
    exact hcond (hall s hs hkey)

/-- **A new path** for a file that has none. -/
lemma Functional.appendPath (h : t.Functional)
    (hpath : conflicts FilePathRow.pathKey r t.paths = false)
    (hfile : ∀ s ∈ t.paths, s.fileKey ≠ some r.vaultFileId)
    (howned : r.vaultFileId ∈ t.files.map FileRow.id) :
    ({ t with paths := t.paths ++ [r] } : Tables).Functional where
  paths := h.paths.append_singleton (conflicts_eq_false.mp hpath)
  files := h.files.append_singleton fun k hk s hs hsk =>
    hfile s hs (hsk.trans (congrArg some (fileKey_eq_some.mp hk).2.symm))
  owned := by
    intro s hs
    rcases mem_append.mp hs with hs | hs
    · exact h.owned s hs
    · obtain rfl := mem_singleton.mp hs
      exact howned

lemma insertPath_eq_some (h : t.insertPath fileIndex r = some t') :
    conflicts FilePathRow.pathKey r t.paths = false ∧
      r.vaultFileId ∈ t.files.map FileRow.id ∧ t' = { t with paths := t.paths ++ [r] } := by
  rw [insertPath] at h
  split at h
  · cases h
  · rename_i hok
    rw [Bool.or_eq_true, not_or, Bool.not_eq_true, Bool.not_eq_true, pathConflicts,
      Bool.or_eq_false_iff, Bool.not_eq_false'] at hok
    obtain ⟨f, hf, hid⟩ := any_eq_true.mp hok.2
    refine ⟨hok.1.1, mem_map.mpr ⟨f, hf, of_decide_eq_true hid⟩, ?_⟩
    exact (Option.some.inj h).symm

/-- `INSERT INTO file_paths` for a file without current path. -/
lemma Functional.insertPath (h : t.Functional)
    (hfile : ∀ s ∈ t.paths, s.fileKey ≠ some r.vaultFileId)
    (hins : t.insertPath fileIndex r = some t') : t'.Functional := by
  obtain ⟨hpath, howned, rfl⟩ := insertPath_eq_some hins
  exact h.appendPath hpath hfile howned

lemma insertFile_eq_some {r : FileRow} (h : t.insertFile r = some t') :
    r.id ∉ t.files.map FileRow.id ∧ t' = { t with files := t.files ++ [r] } := by
  rw [insertFile] at h
  split at h
  · cases h
  · rename_i hnew
    refine ⟨?_, (Option.some.inj h).symm⟩
    intro hmem
    obtain ⟨f, hf, hid⟩ := mem_map.mp hmem
    exact hnew (any_eq_true.mpr ⟨f, hf, decide_eq_true hid⟩)

lemma Functional.insertFile (h : t.Functional) {r : FileRow} (hins : t.insertFile r = some t') :
    t'.Functional := by
  obtain ⟨-, rfl⟩ := insertFile_eq_some hins
  refine ⟨h.paths, h.files, fun s hs => ?_⟩
  rw [map_append]
  exact mem_append_left _ (h.owned s hs)

lemma Functional.fileKey_ne (h : t.Functional) (hnew : id ∉ t.files.map FileRow.id) :
    ∀ s ∈ t.paths, s.fileKey ≠ some id := by
  intro s hs hkey
  exact hnew ((fileKey_eq_some.mp hkey).2 ▸ h.owned s hs)

/-- Deleting rows of the files that are left keeps the invariant. -/
lemma Functional.delete (h : t.Functional) {paths' : List FilePathRow} {files' : List FileRow}
    (hsub : paths'.Sublist t.paths) (hfiles : ∀ r ∈ paths', r.vaultFileId ∈ t.files.map FileRow.id →
      r.vaultFileId ∈ files'.map FileRow.id) :
    ({ t with
      paths := paths'
      files := files' } : Tables).Functional where
  paths := h.paths.sublist hsub
  files := h.files.sublist hsub
  owned := fun r hr => hfiles r hr (h.owned r (hsub.subset hr))

/-! ### Identities -/

lemma Functional.getOrCreateFile (h : t.Functional) {res : Tables × FileId}
    (hrun : t.getOrCreateFile fileIndex v p at_ uuid = some res) : res.1.Functional := by
  rw [Tables.getOrCreateFile] at hrun
  split at hrun
  · cases hrun
    exact h
  · simp only [Option.bind_eq_bind, Option.bind_eq_some_iff, Option.some.injEq] at hrun
    obtain ⟨t₁, hfile, t₂, hpath, rfl⟩ := hrun
    have h₁ := h.insertFile hfile
    obtain ⟨hnew, rfl⟩ := insertFile_eq_some hfile
    exact h₁.insertPath (h.fileKey_ne hnew) hpath

lemma Functional.resolveCloudPathFile (h : t.Functional) {res : Tables × FileId}
    (hrun : t.resolveCloudPathFile fileIndex v p at_ uuid = some res) : res.1.Functional := by
  rw [Tables.resolveCloudPathFile] at hrun
  split at hrun
  · cases hrun
    exact h
  · dsimp only at hrun
    split at hrun
    · cases hrun
      exact h
    · exact h.getOrCreateFile hrun

/-- The files of a batch: their identities are new, and no two are the same. -/
lemma insertFiles_eq_some {row : Path → FileRow} {ps : List Path}
    (hrun : ps.foldlM (fun t p => t.insertFile (row p)) t = some t') :
    t'.paths = t.paths ∧
      t'.files.map FileRow.id = t.files.map FileRow.id ++ ps.map (FileRow.id ∘ row) ∧
      (ps.map (FileRow.id ∘ row)).Nodup ∧
      ∀ p ∈ ps, (row p).id ∉ t.files.map FileRow.id := by
  induction ps generalizing t with
  | nil =>
      cases hrun
      simp
  | cons p ps ih =>
      rw [foldlM_cons, Option.bind_eq_bind, Option.bind_eq_some_iff] at hrun
      obtain ⟨t₁, hins, hrun⟩ := hrun
      obtain ⟨hnew, rfl⟩ := insertFile_eq_some hins
      obtain ⟨hpaths, hfiles, hnodup, hfresh⟩ := ih hrun
      simp only [map_append, map_cons, map_nil, mem_append,
        mem_singleton, not_or] at hfiles hfresh
      refine ⟨hpaths, ?_, ?_, ?_⟩
      · rw [hfiles, map_cons, append_assoc]
        rfl
      · refine nodup_cons.mpr ⟨?_, hnodup⟩
        intro hmem
        obtain ⟨q, hq, hid⟩ := mem_map.mp hmem
        exact (hfresh q hq).2 hid
      · intro q hq
        rcases mem_cons.mp hq with rfl | hq
        · exact hnew
        · exact (hfresh q hq).1

/-- The paths of a batch go to files without path. -/
lemma Functional.insertPaths (h : t.Functional) (row : Path → FilePathRow) {ps : List Path}
    (hnodup : (ps.map (FilePathRow.vaultFileId ∘ row)).Nodup)
    (hfresh : ∀ p ∈ ps, ∀ s ∈ t.paths, s.vaultFileId ≠ (row p).vaultFileId)
    (hrun : ps.foldlM (fun t p => t.insertPath fileIndex (row p)) t = some t') :
    t'.Functional := by
  induction ps generalizing t with
  | nil =>
      cases hrun
      exact h
  | cons p ps ih =>
      rw [foldlM_cons, Option.bind_eq_bind, Option.bind_eq_some_iff] at hrun
      obtain ⟨t₁, hins, hrun⟩ := hrun
      obtain ⟨hp, hps⟩ := nodup_cons.mp hnodup
      have h₁ : t₁.Functional := h.insertPath
        (fun s hs hkey => hfresh p mem_cons_self s hs (fileKey_eq_some.mp hkey).2) hins
      obtain ⟨-, -, rfl⟩ := insertPath_eq_some hins
      refine ih h₁ hps (fun q hq s hs => ?_) hrun
      rcases mem_append.mp hs with hs | hs
      · exact hfresh q (mem_cons_of_mem _ hq) s hs
      · obtain rfl := mem_singleton.mp hs
        exact fun heq => hp (mem_map.mpr ⟨q, hq, heq.symm⟩)

lemma Functional.mintFiles (h : t.Functional) {uuid : Path → FileId} {newPaths : List Path}
    (hrun : t.mintFiles fileIndex v at_ uuid newPaths = some t') : t'.Functional := by
  simp only [Tables.mintFiles, Option.bind_eq_bind, Option.bind_eq_some_iff] at hrun
  obtain ⟨t₁, hfiles, hpaths⟩ := hrun
  obtain ⟨hsame, hids, hnodup, hfresh⟩ := insertFiles_eq_some hfiles
  -- the second guard reads the paths the first one read
  have hfree : t₁.pathFree v = t.pathFree v := by
    funext p
    rw [pathFree, pathFree, hsame]
  rw [hfree] at hpaths
  have h₁ : t₁.Functional := by
    refine ⟨hsame ▸ h.paths, hsame ▸ h.files, fun r hr => ?_⟩
    rw [hids]
    exact mem_append_left _ (h.owned r (hsame ▸ hr))
  refine h₁.insertPaths (fun p => ⟨uuid p, v, p, at_, none⟩) hnodup (fun p hp s hs heq => ?_)
    hpaths
  rw [hsame] at hs
  have heq : s.vaultFileId = uuid p := heq
  exact hfresh p hp (heq ▸ h.owned s hs)

lemma Functional.resolveChunk (h : t.Functional) {uuid : Path → FileId} {ids : List (Path × FileId)}
    {chunk : List Path} {res : Tables × List (Path × FileId)}
    (hrun : Tables.resolveChunk fileIndex v at_ uuid (t, ids) chunk = some res) :
    res.1.Functional := by
  simp only [Tables.resolveChunk] at hrun
  split at hrun
  · cases hrun
    exact h
  · simp only [Option.bind_eq_bind, Option.bind_eq_some_iff, Option.some.injEq] at hrun
    obtain ⟨t₁, hmint, rfl⟩ := hrun
    exact h.mintFiles hmint

lemma Functional.resolveOrCreateFiles (h : t.Functional) {uuid : Path → FileId} {paths : List Path}
    {res : Tables × List (Path × FileId)}
    (hrun : t.resolveOrCreateFiles fileIndex v paths at_ uuid = some res) :
    res.1.Functional := by
  simp only [Tables.resolveOrCreateFiles, Option.bind_eq_bind, Option.bind_eq_some_iff,
    Option.some.injEq] at hrun
  obtain ⟨r, hchunks, ids, -, rfl⟩ := hrun
  suffices hall : ∀ (chunks : List (List Path)) (acc : Tables × List (Path × FileId)),
      acc.1.Functional →
      chunks.foldlM (Tables.resolveChunk fileIndex v at_ uuid) acc = some r →
      r.1.Functional from hall _ (t, []) h hchunks
  intro chunks
  induction chunks with
  | nil =>
      intro acc hacc hrun
      cases hrun
      exact hacc
  | cons chunk chunks ih =>
      intro acc hacc hrun
      rw [foldlM_cons, Option.bind_eq_bind, Option.bind_eq_some_iff] at hrun
      obtain ⟨acc', hchunk, hrun⟩ := hrun
      exact ih acc' (hacc.resolveChunk hchunk) hrun

/-! ### Moves -/

/-- The rows of a join are rows of the tables that meet its condition. -/
lemma mem_joinPaths {cond : FileRow → FilePathRow → Bool} {row : FileRow × FilePathRow} :
    row ∈ t.joinPaths cond ↔
      row.1 ∈ t.files ∧ row.2 ∈ t.paths ∧ row.2.vaultFileId = row.1.id ∧
        cond row.1 row.2 := by
  rw [joinPaths, mem_flatMap]
  constructor
  · rintro ⟨f, hf, hrow⟩
    obtain ⟨r, hr, rfl⟩ := mem_map.mp hrow
    obtain ⟨hmem, hcond⟩ := mem_filter.mp hr
    rw [Bool.and_eq_true, decide_eq_true_eq] at hcond
    exact ⟨hf, hmem, hcond⟩
  · rintro ⟨hf, hmem, hid, hcond⟩
    refine ⟨row.1, hf, mem_map.mpr ⟨row.2, mem_filter.mpr ⟨hmem, ?_⟩, rfl⟩⟩
    rw [Bool.and_eq_true, decide_eq_true_eq]
    exact ⟨hid, hcond⟩

/-- **A move**: the file's only current path is closed before the new one comes. -/
lemma Functional.renameFile (h : t.Functional) {newPath : Path}
    (hrun : t.renameFile fileIndex ses id newPath at_ v = some t') : t'.Functional := by
  rw [Tables.renameFile] at hrun
  split at hrun
  · cases hrun
  · rename_i row hrow
    obtain ⟨-, hmem, hid, hcond⟩ := mem_joinPaths.mp (mem_of_head? hrow)
    simp only [Bool.and_eq_true, decide_eq_true_eq, Option.isNone_iff_eq_none] at hcond
    obtain ⟨⟨⟨⟨hvault, hcurrent⟩, hfile⟩, hv⟩, -⟩ := hcond
    split at hrun
    · cases hrun
      exact h
    · have hmarked := (h.markPathDirty ses v row.2.path).markPathDirty ses v newPath
      have hpaths : ((t.markPathDirty ses v row.2.path).markPathDirty ses v newPath).paths =
          t.paths :=
        (persistDirtyDirectories_rows ses v _ _).2.trans (persistDirtyDirectories_rows ses v _ _).2
      refine (hmarked.close _ at_).insertPath (fileKey_ne_of_close ?_) hrun
      intro r hr hkey
      -- the row found is the only current one of the file
      have hsame : r = row.2 := hmarked.files.eq_of_key_eq hr (hpaths ▸ hmem) hkey
        (fileKey_eq_some.mpr ⟨hcurrent, hid.trans hfile⟩)
      simp [hsame, hid, hfile, hvault, hv, hcurrent]

/-! ### Compensations -/

lemma Functional.deleteFile (h : t.Functional) (hrun : t.deleteFile id v = some t') :
    t'.Functional := by
  rw [Tables.deleteFile] at hrun
  split at hrun
  · split at hrun
    · cases hrun
    · cases hrun
      refine (h.delete filter_sublist ?_).congr rfl rfl
      intro r hr hfile
      obtain ⟨f, hf, hid⟩ := mem_map.mp hfile
      have hne : r.vaultFileId ≠ id := by simpa using (mem_filter.mp hr).2
      refine mem_map.mpr ⟨f, mem_filter.mpr ⟨hf, ?_⟩, hid⟩
      simp [show f.id ≠ id from hid ▸ hne]
  · cases hrun
    exact h

lemma Functional.undoEntry (h : t.Functional) {scanId : Stamp} {e : Path × Option JournalRow}
    (hrun : Tables.undoEntry ses v scanId t e = some t') : t'.Functional := by
  rw [Tables.undoEntry] at hrun
  split at hrun
  · split at hrun
    · cases hrun
      exact h
    · obtain ⟨t₁, hdel, rfl⟩ := Option.map_eq_some_iff.mp hrun
      refine Functional.markPathDirty _ _ ?_ e.1
      refine Functional.deleteFile (t := _) ?_ hdel
      exact (h.delete filter_sublist fun _ _ hr => hr).congr rfl rfl
  · cases hrun
    refine Functional.markFileIdDirty ?_ _
    exact h.congr rfl rfl
  · cases hrun
    refine Functional.markFileIdDirty ?_ _
    exact h.congr rfl rfl

lemma Functional.rollbackLocalScanJournal (h : t.Functional) (scanId : Stamp) (journal : Journal) :
    (Tables.rollbackLocalScanJournal ses v scanId t journal).Functional := by
  rw [Tables.rollbackLocalScanJournal]
  cases hrun : journal.foldlM (Tables.undoEntry ses v scanId) t with
  | none => exact h
  | some t' =>
      rw [Option.getD_some]
      induction journal generalizing t with
      | nil =>
          cases hrun
          exact h
      | cons e es ih =>
          rw [foldlM_cons, Option.bind_eq_bind, Option.bind_eq_some_iff] at hrun
          obtain ⟨t₁, hentry, hrun⟩ := hrun
          exact ih (h.undoEntry hentry) hrun

/-! ### Confirmations -/

lemma mem_joined {row : JoinedRow} (h : row ∈ t.joined) :
    row.file ∈ t.files ∧ row.path ∈ t.paths ∧ row.path.vaultFileId = row.file.id := by
  obtain ⟨pair, hpair, hrow⟩ := mem_flatMap.mp h
  obtain ⟨c, -, rfl⟩ := mem_map.mp hrow
  obtain ⟨hf, hr, hid, -⟩ := mem_joinPaths.mp hpair
  exact ⟨hf, hr, hid⟩

/-- The missing file of a candidate is a file. -/
lemma loadRenameCandidate_missing {newPath : Path} {snap : RenameSnapshot}
    (h : t.loadRenameCandidate v id newPath = some snap) :
    snap.missing.file.id ∈ t.files.map FileRow.id := by
  obtain ⟨m, hm, hsnap⟩ := mem_flatMap.mp (mem_of_head? h)
  obtain ⟨p, -, rfl⟩ := mem_map.mp hsnap
  exact mem_map_of_mem (mem_joined (mem_filter.mp hm).1).1

variable {c : Rename} {seen : Tables}

lemma claim_ids (c : Rename) (seen t : Tables) :
    (c.claim seen t).1.files.map FileRow.id = t.files.map FileRow.id := by
  show ((t.files.map _).map FileRow.id) = _
  rw [map_map]
  refine map_congr_left fun f _ => ?_
  show (if _ then _ else f : FileRow).id = f.id
  split <;> rfl

/-- Closing one path of a file leaves it without current path. -/
lemma Functional.fileKey_ne_of_closePath (h : t.Functional) {row : JoinedRow} {pair : Bool}
    (hone : (c.closePath row pair t).2 = 1) :
    ∀ r ∈ (c.closePath row pair t).1.paths, r.fileKey ≠ some row.file.id := by
  refine fileKey_ne_of_close (h.files.forall_of_countP_eq_one (fun r _ hr => ?_) hone)
  simp only [Bool.and_eq_true, decide_eq_true_eq, Option.isNone_iff_eq_none] at hr
  exact fileKey_eq_some.mpr ⟨hr.1.2, hr.1.1.1.1.1⟩

lemma Functional.closePath (h : t.Functional) (c : Rename) (row : JoinedRow) (pair : Bool) :
    (c.closePath row pair t).1.Functional :=
  h.close _ _

variable (fileIndex) in
lemma Functional.insertNewPath (h : t.Functional)
    (hfile : ∀ r ∈ t.paths, r.fileKey ≠ some c.snap.missing.file.id)
    (howned : c.snap.missing.file.id ∈ t.files.map FileRow.id) (seen : Tables) :
    (c.insertNewPath fileIndex seen t).1.Functional := by
  unfold Rename.insertNewPath
  dsimp only
  split
  · rename_i hins
    rw [Bool.and_eq_true, Bool.not_eq_true', pathConflicts, Bool.or_eq_false_iff] at hins
    exact h.appendPath hins.2.1 hfile howned
  · exact h

/-- The second half of the chain: the path of the missing file is closed, whatever the predicates
see, so the new one is its only one. -/
lemma Functional.takeOver (h : t.Functional)
    (howned : c.snap.missing.file.id ∈ t.files.map FileRow.id)
    (hone : (c.closeMissing (see 4 t) t).2 = 1)
    (hrun : Savepoints.swapAll [fun t => c.insertNewPath fileIndex (see 5 t) t,
      fun t => c.restoreCopy (see 6 t) t] (c.closeMissing (see 4 t) t).1 = some t') :
    t'.Functional := by
  simp only [Savepoints.swapAll_cons_eq_some, Savepoints.swapAll_nil, Option.some.injEq] at hrun
  obtain ⟨-, -, rfl⟩ := hrun
  have hclosed : (c.closeMissing (see 4 t) t).1.Functional := h.closePath c _ _
  have hinserted := hclosed.insertNewPath fileIndex
    (h.fileKey_ne_of_closePath hone) howned (see 5 (c.closeMissing (see 4 t) t).1)
  exact hinserted.congr rfl rfl

/-- **The chain of a confirmation.** -/
lemma Functional.statements (h : t.Functional)
    (howned : c.snap.missing.file.id ∈ t.files.map FileRow.id)
    (hrun : Savepoints.swapAll (c.statements fileIndex see) t = some t') : t'.Functional := by
  rw [Rename.statements, Savepoints.swapAll_cons_eq_some, Savepoints.swapAll_cons_eq_some,
    Savepoints.swapAll_cons_eq_some, Savepoints.swapAll_cons_eq_some] at hrun
  obtain ⟨-, -, -, hone, hrun⟩ := hrun
  refine Functional.takeOver ?_ ?_ hone hrun
  · have hclaimed : (c.claim (see 1 t) t).1.Functional := h.congr (claim_ids c _ t) rfl
    exact (hclaimed.closePath c _ _).congr rfl rfl
  · exact (claim_ids c (see 1 t) t).symm ▸ howned

/-- A confirmation, whether it raises or not. -/
lemma Functional.confirmFileRename {newPath : Path} {s : Savepoints.Session Tables}
    (h : s.current.Functional) :
    (Tables.confirmFileRename fileIndex see ses id newPath at_ v s).2.current.Functional := by
  rcases confirmFileRename_cases fileIndex see ses id newPath at_ v s with
    hraise | ⟨snap, t, hload, hswap, hdone⟩
  · rw [hraise]
    exact h
  · rw [hdone]
    exact (h.statements (loadRenameCandidate_missing hload) hswap).markPathsDirty _

end Tables

/-! ### Sequences -/

/-- The functions that write paths, with what they are called with.  `elsewhere` is what others
do to the rest of the tables. -/
inductive PathOp
  | getOrCreate (v : VaultId) (p : Path) (createdAt : Stamp) (uuid : FileId)
  | resolveOrCreate (v : VaultId) (paths : List Path) (createdAt : Stamp) (uuid : Path → FileId)
  | resolveCloudPath (v : VaultId) (p : Path) (createdAt : Stamp) (uuid : FileId)
  | rename (ses : Session) (id : FileId) (newPath : Path) (changedAt : Stamp) (v : VaultId)
  | confirm (see : ℕ → Tables → Tables) (ses : Session) (id : FileId) (newPath : Path)
      (changedAt : Stamp) (v : VaultId) (saved : List (String × Tables))
  | rollback (ses : Session) (v : VaultId) (scanId : Stamp) (journal : Journal)
  | elsewhere (others : Tables) (status : FileRow → FileStatus × Option Stamp)

/-- Other tables, and the other columns of the files. -/
def Tables.elsewhere (t others : Tables) (status : FileRow → FileStatus × Option Stamp) :
    Tables :=
  { others with
    files := t.files.map fun f => { f with
      status := (status f).1
      retiredAt := (status f).2 }
    paths := t.paths }

/-- The tables after a call.  A call that raises leaves them as they are, but for
`confirm_file_rename`: its caller goes on with the session it leaves. -/
def PathOp.run (fileIndex : Bool) (t : Tables) : PathOp → Tables
  | .getOrCreate v p createdAt uuid =>
      ((t.getOrCreateFile fileIndex v p createdAt uuid).map Prod.fst).getD t
  | .resolveOrCreate v paths createdAt uuid =>
      ((t.resolveOrCreateFiles fileIndex v paths createdAt uuid).map Prod.fst).getD t
  | .resolveCloudPath v p createdAt uuid =>
      ((t.resolveCloudPathFile fileIndex v p createdAt uuid).map Prod.fst).getD t
  | .rename ses id newPath changedAt v =>
      (t.renameFile fileIndex ses id newPath changedAt v).getD t
  | .confirm see ses id newPath changedAt v saved =>
      (Tables.confirmFileRename fileIndex see ses id newPath changedAt v ⟨t, saved⟩).2.current
  | .rollback ses v scanId journal => t.rollbackLocalScanJournal ses v scanId journal
  | .elsewhere others status => t.elsewhere others status

/-- An optional result, or the tables as they are. -/
lemma Tables.Functional.getD {t : Tables} (h : t.Functional) {o : Option Tables}
    (ho : ∀ t', o = some t' → t'.Functional) : (o.getD t).Functional := by
  cases o with
  | none => exact h
  | some t' => exact ho t' rfl

/-- **One call** keeps the invariant. -/
lemma PathOp.run_functional {t : Tables} (h : t.Functional) (fileIndex : Bool) (op : PathOp) :
    (op.run fileIndex t).Functional := by
  cases op with
  | getOrCreate v p createdAt uuid =>
      refine h.getD fun t' ht' => ?_
      obtain ⟨res, hres, rfl⟩ := Option.map_eq_some_iff.mp ht'
      exact h.getOrCreateFile hres
  | resolveOrCreate v paths createdAt uuid =>
      refine h.getD fun t' ht' => ?_
      obtain ⟨res, hres, rfl⟩ := Option.map_eq_some_iff.mp ht'
      exact h.resolveOrCreateFiles hres
  | resolveCloudPath v p createdAt uuid =>
      refine h.getD fun t' ht' => ?_
      obtain ⟨res, hres, rfl⟩ := Option.map_eq_some_iff.mp ht'
      exact h.resolveCloudPathFile hres
  | rename ses id newPath changedAt v => exact h.getD fun t' ht' => h.renameFile ht'
  | confirm see ses id newPath changedAt v saved =>
      exact Tables.Functional.confirmFileRename (s := ⟨t, saved⟩) h
  | rollback ses v scanId journal => exact h.rollbackLocalScanJournal scanId journal
  | elsewhere others status =>
      refine h.congr ?_ rfl
      rw [PathOp.run, Tables.elsewhere, map_map]
      rfl

/-- The tables after a sequence of calls. -/
def runPathOps (fileIndex : Bool) (t : Tables) (ops : List PathOp) : Tables :=
  ops.foldl (PathOp.run fileIndex) t

/-- A sequence of calls keeps the invariant. -/
lemma runPathOps_functional {t : Tables} (h : t.Functional) (fileIndex : Bool) (ops : List PathOp) :
    (runPathOps fileIndex t ops).Functional := by
  induction ops generalizing t with
  | nil => exact h
  | cons op ops ih => exact ih (op.run_functional h fileIndex)

lemma Tables.functional_empty (vaults : VaultTable) : (Tables.empty vaults).Functional :=
  ⟨unique_nil, unique_nil, fun _ hr => absurd hr not_mem_nil⟩

/-- **Path History stays functional.**  After any sequence of calls, a Vault File has at most one
current path and a path of a Vault is current for at most one Vault File, with or without the
index on the files; and a confirmation that raises, at whatever statement, leaves the session with
the tables it was called with. -/
theorem path_history_functional (fileIndex : Bool) (vaults : VaultTable) (ops : List PathOp) :
    (∀ id : FileId, (runPathOps fileIndex (Tables.empty vaults) ops).paths.countP
      (fun r => r.validTo.isNone && r.vaultFileId = id) ≤ 1) ∧
    (∀ (v : VaultId) (p : Path), (runPathOps fileIndex (Tables.empty vaults) ops).paths.countP
      (fun r => r.validTo.isNone && r.vaultId = v && r.path = p) ≤ 1) ∧
    ∀ (see : ℕ → Tables → Tables) (ses : Session) (id : FileId) (newPath : Path)
      (changedAt : Stamp) (v : VaultId) (s : Savepoints.Session Tables),
      (Tables.confirmFileRename fileIndex see ses id newPath changedAt v s).1 = .ok id ∨
        (Tables.confirmFileRename fileIndex see ses id newPath changedAt v s).2 = s := by
  have h := runPathOps_functional (Tables.functional_empty vaults) fileIndex ops
  refine ⟨fun id => ?_, fun v p => ?_, fun see ses id newPath changedAt v s => ?_⟩
  · refine le_of_eq_of_le (countP_congr fun r _ => ?_) (h.files.countP_le_one id)
    rw [Bool.and_eq_true, Option.isNone_iff_eq_none, decide_eq_true_eq, decide_eq_true_eq,
      Tables.fileKey_eq_some]
  · refine le_of_eq_of_le (countP_congr fun r _ => ?_) (h.paths.countP_le_one (v, p))
    rw [Bool.and_eq_true, Bool.and_eq_true, Option.isNone_iff_eq_none, decide_eq_true_eq,
      decide_eq_true_eq, decide_eq_true_eq, Tables.pathKey_eq_some, and_assoc]
  · rcases Tables.confirmFileRename_cases fileIndex see ses id newPath changedAt v s with
      hraise | ⟨snap, t, -, -, hdone⟩
    · exact Or.inr (congrArg Prod.snd hraise)
    · exact Or.inl (congrArg Prod.fst hdone)

end Frostvault
