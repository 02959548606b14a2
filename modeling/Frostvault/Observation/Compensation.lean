import Frostvault.Observation.ScanJournal

/-!
Failed local scans (`_rollback_local_scan_journal` of `app/storage.py`).

The journal is played back entry by entry: the file minted at a path goes, the row of a file
that was there gets its remembered columns.  What the journal does not remember stays as the
scan left it.

* `ScanLeft`: what a scan left of every file, and its journal;
* `undoCopy_undoneFile`: one row, played back;
* `rollback_files`: what the whole compensation leaves;
* `scan_compensated_iff`: **a failed scan is compensated exactly when no observed copy
  reappeared with another hold, and every published fingerprint is of a row it walked over**.
-/

namespace Frostvault

open List

variable {cat cat' : Catalog} {v : VaultId} {scanId : Stamp}

/-! ### What a scan leaves -/

/-- What is left of a file: only its Local Copy changes, and a changed row carries the scan's
id. -/
structure LeftBy (scanId : Stamp) (left : VaultFile → VaultFile) : Prop where
  same : ∀ f, left f = f.withCopy (left f).localCopy
  inserted : ∀ f, f.localCopy = none → ∀ lc ∈ (left f).localCopy, lc.lastSeenAt = some scanId
  updated : ∀ f lc, f.localCopy = some lc → ∃ lc', (left f).localCopy = some lc' ∧
    (lc' = lc ∨ lc'.lastSeenAt = some scanId)

/-- **What a scan left** when it failed: the old files, minted files for the new paths it observed,
and a journal of the rows before the scan. -/
structure ScanLeft (cat : Catalog) (v : VaultId) (scanId : Stamp) (left : VaultFile → VaultFile)
    (observed : List Path) (cur : Catalog) (journal : Journal) : Prop where
  rows : LeftBy scanId left
  files : ∃ new, cur.files = cat.files.map left ++ new ∧
    ∀ g ∈ new, Minted cat v scanId observed cur.jobs g
  entries : ∀ e ∈ journal, e.2 = journalEntry cat v e.1
  covers : ∀ p ∈ observed, p ∈ journal.map Prod.fst

variable {left : VaultFile → VaultFile} {observed : List Path}

/-! ### Playing the journal back -/

/-- A file after the compensation: the row as it was left, with the remembered columns. -/
def compensated (left : VaultFile → VaultFile) (f : VaultFile) : VaultFile :=
  f.withCopy (f.localCopy.bind fun lc =>
    (left f).localCopy.map fun lc' => lc'.restore lc.snapshot)

/-- A file while the journal is played back: the paths of `undone` are compensated. -/
def undoneFile (left : VaultFile → VaultFile) (v : VaultId) (undone : List Path) (f : VaultFile) :
    VaultFile :=
  if f.vaultId = v ∧ (f.currentPath.any (· ∈ undone)) = true then compensated left f
  else left f

variable {undone : List Path} {f : VaultFile} {p : Path}

lemma undoneFile_concat_self (hv : f.vaultId = v) (hp : f.currentPath = some p) :
    undoneFile left v (undone ++ [p]) f = compensated left f := by
  rw [undoneFile, if_pos]
  exact ⟨hv, by simp [hp]⟩

lemma undoneFile_concat_of_ne (h : ¬(f.vaultId = v ∧ f.currentPath = some p)) :
    undoneFile left v (undone ++ [p]) f = undoneFile left v undone f := by
  have hiff : (f.vaultId = v ∧ (f.currentPath.any (· ∈ undone ++ [p]))) ↔
      (f.vaultId = v ∧ (f.currentPath.any (· ∈ undone))) := by
    cases hq : f.currentPath with
    | none => simp
    | some q =>
        have hne : f.vaultId = v → q ≠ p := fun hv hqp => h ⟨hv, hqp ▸ hq⟩
        simp only [Option.any_some, decide_eq_true_eq, mem_append, mem_singleton]
        constructor
        · rintro ⟨hv, hmem⟩
          exact ⟨hv, hmem.resolve_right (hne hv)⟩
        · rintro ⟨hv, hmem⟩
          exact ⟨hv, Or.inl hmem⟩
  rw [undoneFile, undoneFile, if_congr hiff rfl rfl]

lemma LeftBy.undoneFile_eq (h : LeftBy scanId left) (v : VaultId) (undone : List Path)
    (f : VaultFile) :
    undoneFile left v undone f = f.withCopy (undoneFile left v undone f).localCopy := by
  rw [undoneFile]
  split
  · rfl
  · exact h.same f

lemma LeftBy.undoCopy_undoneFile (h : LeftBy scanId left) (undone : List Path) (f : VaultFile) :
    undoCopy scanId (f.localCopy.map LocalCopy.snapshot)
        (undoneFile left v undone f).localCopy =
      (compensated left f).localCopy := by
  cases hcopy : f.localCopy with
  | none =>
      have hcomp : (compensated left f).localCopy = none := by
        simp [compensated, VaultFile.withCopy, hcopy]
      rw [hcomp, Option.map_none, undoCopy, undoneFile]
      split
      · simp [hcomp]
      · cases hscan : (left f).localCopy with
        | none => rfl
        | some lc =>
            rw [if_pos]
            exact decide_eq_true (h.inserted f hcopy lc hscan)
  | some lc =>
      obtain ⟨lc', hscan, hsame⟩ := h.updated f lc hcopy
      have hcomp : (compensated left f).localCopy =
          some (lc'.restore lc.snapshot) := by
        simp [compensated, VaultFile.withCopy, hcopy, hscan]
      rw [hcomp, Option.map_some, undoCopy, undoneFile]
      split
      · rw [hcomp, Option.map_some]
        split <;> rfl
      · rw [hscan, Option.map_some]
        rcases hsame with rfl | hseen
        · split <;> rfl
        · rw [if_pos hseen]

/-- **While the journal is played back**: the journaled paths so far are compensated, and the
minted files at other paths remain. -/
structure Undone (cat : Catalog) (v : VaultId) (scanId : Stamp) (left : VaultFile → VaultFile)
    (observed undone : List Path) (cur : Catalog) : Prop where
  files : ∃ new, cur.files = cat.files.map (undoneFile left v undone) ++ new ∧
    ∀ g ∈ new, Minted cat v scanId observed cur.jobs g ∧
      ∀ p ∈ undone, g.currentPath ≠ some p

lemma Minted.not_old {jobs : List Job} {g : VaultFile}
    (h : Minted cat v scanId observed jobs g) (hf : f ∈ cat.files) (hv : f.vaultId = v) :
    f.currentPath ≠ g.currentPath := by
  obtain ⟨p, -, hgp, hnone⟩ := h.currentPath
  rw [hgp]
  exact Catalog.not_currentPath_of_fileAt?_none hnone hf hv

variable {cur : Catalog} {journal : Journal}

/-- A path nobody held before the scan: its minted file is removed. -/
lemma Undone.removed (hleft : LeftBy scanId left) (h : Undone cat v scanId left observed undone cur)
    (hat : cat.fileAt? v p = none) :
    ∃ cur', undoEntry v scanId cur (p, none) = some cur' ∧
      Undone cat v scanId left observed (undone ++ [p]) cur' := by
  obtain ⟨new, hfiles, hnew⟩ := h.files
  have hold : ∀ f ∈ cat.files, ¬(f.vaultId = v ∧ f.currentPath = some p) :=
    fun f hf hfp => Catalog.not_currentPath_of_fileAt?_none hat hf hfp.1 hfp.2
  have hmap : cat.files.map (undoneFile left v (undone ++ [p])) =
      cat.files.map (undoneFile left v undone) :=
    map_congr_left fun f hf => undoneFile_concat_of_ne (hold f hf)
  simp only [undoEntry]
  cases hcur : cur.fileAt? v p with
  | none =>
      refine ⟨cur, rfl, new, by rw [hmap, hfiles], fun g hg => ⟨(hnew g hg).1, ?_⟩⟩
      intro q hq
      rcases mem_append.mp hq with hq | hq
      · exact (hnew g hg).2 q hq
      · rw [mem_singleton.mp hq]
        refine Catalog.not_currentPath_of_fileAt?_none hcur ?_ (hnew g hg).1.vaultId
        rw [hfiles]
        exact mem_append_right _ hg
  | some g =>
      obtain ⟨hgmem, hgv, hgp⟩ := Catalog.mem_of_fileAt? hcur
      -- the file at the path is a minted one
      have hnotold : ∀ f ∈ cat.files, undoneFile left v undone f ≠ g := by
        rintro f hf rfl
        rw [hleft.undoneFile_eq] at hgv hgp
        exact hold f hf ⟨hgv, hgp⟩
      have hgnew : g ∈ new := by
        rw [hfiles] at hgmem
        rcases mem_append.mp hgmem with hmem | hmem
        · obtain ⟨f, hf, hfg⟩ := mem_map.mp hmem
          exact absurd hfg (hnotold f hf)
        · exact hmem
      have hmint := (hnew g hgnew).1
      obtain ⟨lc, hlc, hseen⟩ := hmint.lastSeenAt
      dsimp only
      rw [if_pos ⟨by simp [hlc, hseen], hmint.versions, hmint.unused⟩,
        if_pos hmint.deleteMarkers]
      refine ⟨_, rfl, new.filter fun f => f.id ≠ g.id, ?_, ?_⟩
      · show cur.files.filter _ = _
        rw [hfiles, filter_append, hmap]
        congr 1
        rw [filter_eq_self]
        intro f hf
        rw [decide_eq_true_eq]
        intro hid
        have hfcur : f ∈ cur.files := by
          rw [hfiles]
          exact mem_append_left _ hf
        obtain ⟨f₀, hf₀, rfl⟩ := mem_map.mp hf
        exact hnotold f₀ hf₀ (cur.eq_of_id_eq hfcur hgmem hid)
      · intro f hf
        obtain ⟨hfnew, hid⟩ := mem_filter.mp hf
        refine ⟨(hnew f hfnew).1, fun q hq hfq => ?_⟩
        rcases mem_append.mp hq with hq | hq
        · exact (hnew f hfnew).2 q hq hfq
        · have hfcur : f ∈ cur.files := by
            rw [hfiles]
            exact mem_append_right _ hfnew
          rw [mem_singleton.mp hq] at hfq
          have := cur.eq_of_path_eq hfcur hgmem ((hnew f hfnew).1.vaultId.trans hgv.symm) hfq hgp
          exact of_decide_eq_true hid (congrArg VaultFile.id this)

/-- A path somebody held before the scan: its row is compensated. -/
lemma Undone.restored (hleft : LeftBy scanId left)
    (h : Undone cat v scanId left observed undone cur) (hat : cat.fileAt? v p = some f) :
    ∃ cur', undoEntry v scanId cur (p, journalEntry cat v p) = some cur' ∧
      Undone cat v scanId left observed (undone ++ [p]) cur' := by
  obtain ⟨new, hfiles, hnew⟩ := h.files
  obtain ⟨hf, hfv, hfp⟩ := Catalog.mem_of_fileAt? hat
  have hfcur : undoneFile left v undone f ∈ cur.files := by
    rw [hfiles]
    exact mem_append_left _ (mem_map_of_mem hf)
  have hpath : ∀ g ∈ new, g.currentPath ≠ some p := fun g hg hgp =>
    (hnew g hg).1.not_old hf hfv (hfp.trans hgp.symm)
  simp only [journalEntry, hat, Option.map_some, undoEntry]
  refine ⟨_, rfl, new, ?_, fun g hg => ⟨(hnew g hg).1, ?_⟩⟩
  · show cur.files.map _ = _
    rw [hfiles, map_append, map_map]
    congr 1
    · refine map_congr_left fun k hk => ?_
      show VaultFile.withCopy _ (if _ = f.id then _ else _) = _
      have hkid : (undoneFile left v undone k).id = k.id := by
        rw [hleft.undoneFile_eq]
        rfl
      rw [hkid]
      split
      · rename_i hid
        rw [cat.eq_of_id_eq hk hf hid, hleft.undoCopy_undoneFile, undoneFile_concat_self hfv hfp,
          hleft.undoneFile_eq]
        rfl
      · rename_i hid
        rw [undoneFile_concat_of_ne]
        · rfl
        · rintro ⟨hkv, hkp⟩
          exact hid (congrArg VaultFile.id (cat.eq_of_path_eq hk hf (hkv.trans hfv.symm) hkp hfp))
    · refine (map_congr_left fun g hg => ?_).trans (map_id new)
      show VaultFile.withCopy g (if g.id = f.id then _ else g.localCopy) = g
      rw [if_neg]
      · rfl
      · intro hid
        have hgcur : g ∈ cur.files := by
          rw [hfiles]
          exact mem_append_right _ hg
        have hfid : (undoneFile left v undone f).id = f.id := by
          rw [hleft.undoneFile_eq]
          rfl
        refine hpath g hg ?_
        rw [cur.eq_of_id_eq hgcur hfcur (hid.trans hfid.symm), hleft.undoneFile_eq]
        exact hfp
  · intro q hq
    rcases mem_append.mp hq with hq | hq
    · exact (hnew g hg).2 q hq
    · rw [mem_singleton.mp hq]
      exact hpath g hg

lemma Undone.entries (hleft : LeftBy scanId left)
    (hjournal : ∀ e ∈ journal, e.2 = journalEntry cat v e.1)
    (h : Undone cat v scanId left observed undone cur) :
    ∃ cur', journal.foldlM (undoEntry v scanId) cur = some cur' ∧
      Undone cat v scanId left observed (undone ++ journal.map Prod.fst) cur' := by
  induction journal generalizing undone cur with
  | nil => exact ⟨cur, rfl, by simpa using h⟩
  | cons e es ih =>
      have hstep : ∃ cur', undoEntry v scanId cur e = some cur' ∧
          Undone cat v scanId left observed (undone ++ [e.1]) cur' := by
        obtain ⟨p, row⟩ := e
        obtain rfl : row = journalEntry cat v p := hjournal _ mem_cons_self
        cases hat : cat.fileAt? v p with
        | none =>
            rw [show journalEntry cat v p = none by rw [journalEntry, hat, Option.map_none]]
            exact h.removed hleft hat
        | some f => exact h.restored hleft hat
      obtain ⟨mid, hmid, hundone⟩ := hstep
      obtain ⟨cur', hrest, hdone⟩ := ih (fun e he => hjournal e (mem_cons_of_mem _ he)) hundone
      refine ⟨cur', ?_, ?_⟩
      · rw [foldlM_cons, Option.bind_eq_bind, hmid]
        exact hrest
      · rwa [append_assoc] at hdone

/-- **What the compensation leaves**: the files before the scan, the journaled ones
compensated. -/
lemma rollback_files (h : ScanLeft cat v scanId left observed cur journal) :
    (rollbackLocalScanJournal v scanId cur journal).files =
      cat.files.map (undoneFile left v (journal.map Prod.fst)) := by
  obtain ⟨new, hfiles, hnew⟩ := h.files
  have hstart : Undone cat v scanId left observed [] cur := by
    refine ⟨new, ?_, fun g hg => ⟨hnew g hg, by simp⟩⟩
    rw [hfiles]
    congr 1
    exact map_congr_left fun f _ => by simp [undoneFile]
  obtain ⟨cur', hfold, hdone⟩ := hstart.entries h.rows h.entries
  rw [rollbackLocalScanJournal, hfold, Option.getD_some]
  obtain ⟨new', hfiles', hnew'⟩ := hdone.files
  have hempty : new' = [] := by
    refine eq_nil_iff_forall_not_mem.mpr fun g hg => ?_
    obtain ⟨p, hp, hgp, -⟩ := (hnew' g hg).1.currentPath
    exact (hnew' g hg).2 p (by simpa using h.covers p hp) hgp
  rw [hfiles', hempty, append_nil, nil_append]

/-- The compensation loses nothing when it loses nothing of any file. -/
lemma rollback_files_eq_iff (h : ScanLeft cat v scanId left observed cur journal) :
    (rollbackLocalScanJournal v scanId cur journal).files = cat.files ↔
      ∀ f ∈ cat.files, undoneFile left v (journal.map Prod.fst) f = f := by
  rw [rollback_files h]
  constructor
  · exact fun h => map_inj_left.mp (h.trans (map_id cat.files).symm)
  · exact fun h => (map_congr_left h).trans (map_id cat.files)

/-! ### The walk -/

variable {batches : List (List PendingEntry)}

lemma leftBy_scannedFile (v : VaultId) (scanId : Stamp) (batches : List (List PendingEntry)) :
    LeftBy scanId (scannedFile v scanId batches) where
  same := scannedFile_eq batches
  inserted _ hcopy := scannedFile_none hcopy
  updated f lc hcopy := by
    obtain ⟨lc', hscan, -, -, hsame⟩ := scannedFile_some v scanId batches hcopy
    exact ⟨lc', hscan, hsame⟩

lemma Scanned.scanLeft (h : Scanned cat v scanId batches cur journal) :
    ScanLeft cat v scanId (scannedFile v scanId batches) (batches.flatMap batchPaths) cur journal :=
  ⟨leftBy_scannedFile v scanId batches, h.files, h.entries, h.covers⟩

/-- A file the walk did not observe has nothing to be compensated. -/
lemma compensated_of_unobserved
    (h : ¬(f.vaultId = v ∧ ∃ p ∈ batches.flatMap batchPaths, f.currentPath = some p)) :
    compensated (scannedFile v scanId batches) f = f := by
  rw [compensated, scannedFile_of_unobserved h]
  cases hcopy : f.localCopy with
  | none =>
      show f.withCopy none = f
      rw [← hcopy]
      rfl
  | some lc =>
      show f.withCopy (some lc) = f
      rw [← hcopy]
      rfl

/-- The compensation loses nothing of a file but the hold of a copy that reappeared. -/
lemma compensated_eq_self_iff (scanId : Stamp) :
    compensated (scannedFile v scanId batches) f = f ↔
      ∀ lc ∈ f.localCopy, reappears lc.presence (observedTypes v batches f) →
        f.onlyCloudCopy = lc.cloudOnlyVersionId := by
  have hfile : compensated (scannedFile v scanId batches) f = f ↔
      (compensated (scannedFile v scanId batches) f).localCopy = f.localCopy := by
    constructor
    · exact fun h => congrArg VaultFile.localCopy h
    · intro h
      have heq : compensated (scannedFile v scanId batches) f =
          f.withCopy (compensated (scannedFile v scanId batches) f).localCopy := rfl
      rw [heq, h]
      rfl
  rw [hfile]
  cases hcopy : f.localCopy with
  | none => simp [compensated, VaultFile.withCopy, hcopy]
  | some lc =>
      obtain ⟨lc', hscan, hrec, hhold, -⟩ := scannedFile_some v scanId batches hcopy
      have hcomp : (compensated (scannedFile v scanId batches) f).localCopy =
          some (lc'.restore lc.snapshot) := by
        simp [compensated, VaultFile.withCopy, hcopy, hscan]
      have hrow : lc'.restore lc.snapshot = lc ↔ lc'.cloudOnlyVersionId = lc.cloudOnlyVersionId := by
        constructor
        · intro h
          have hhold := congrArg LocalCopy.cloudOnlyVersionId h
          exact hhold
        · intro h
          simp only [LocalCopy.restore, LocalCopy.snapshot, h, hrec]
      rw [hcomp, Option.some.injEq, hrow, hhold]
      simp only [Option.mem_def, Option.some.injEq, forall_eq']
      split
      · rename_i hre
        simp [hre]
      · rename_i hre
        simp [hre]

/-! ### The fingerprints -/

variable {published : List FingerprintUpdate}

/-- A file after the updates that were committed. -/
def publishedFile (scanId : Stamp) (published : List FingerprintUpdate) (f : VaultFile) :
    VaultFile :=
  published.foldl (fun f u => f.withCopy (u.copy scanId f)) f

lemma applyLocalFingerprintUpdates_files (scanId : Stamp) (cat : Catalog)
    (published : List FingerprintUpdate) :
    (applyLocalFingerprintUpdates scanId cat published).files =
        cat.files.map (publishedFile scanId published) ∧
      (applyLocalFingerprintUpdates scanId cat published).jobs = cat.jobs := by
  induction published generalizing cat with
  | nil => exact ⟨(map_id cat.files).symm, rfl⟩
  | cons u us ih =>
      obtain ⟨hfiles, hjobs⟩ := ih (cat.mapLocalCopies (u.copy scanId))
      refine ⟨hfiles.trans ?_, hjobs⟩
      show (cat.files.map _).map _ = _
      rw [map_map]
      rfl

/-- An update keeps the columns the journal does not remember. -/
lemma publish_spec (u : FingerprintUpdate) (scanId : Stamp) (lc : LocalCopy) :
    (u.publish scanId lc).cloudOnlyVersionId = lc.cloudOnlyVersionId ∧
      (u.publish scanId lc).recoveredAt = lc.recoveredAt ∧
      (u.publish scanId lc = lc ∨ (u.publish scanId lc).lastSeenAt = some scanId) := by
  unfold FingerprintUpdate.publish
  split
  · exact ⟨rfl, rfl, Or.inr rfl⟩
  · exact ⟨rfl, rfl, Or.inl rfl⟩

lemma publishedFile_eq (scanId : Stamp) (published : List FingerprintUpdate) (f : VaultFile) :
    publishedFile scanId published f =
      f.withCopy (publishedFile scanId published f).localCopy := by
  induction published generalizing f with
  | nil => rfl
  | cons u us ih => exact ih (f.withCopy (u.copy scanId f))

lemma publishedFile_none (hcopy : f.localCopy = none) :
    (publishedFile scanId published f).localCopy = none := by
  induction published generalizing f with
  | nil => exact hcopy
  | cons u us ih =>
      refine ih (f := f.withCopy (u.copy scanId f)) ?_
      show u.copy scanId f = none
      rw [FingerprintUpdate.copy, hcopy, Option.map_none, ite_self]

lemma publishedFile_some (scanId : Stamp) (published : List FingerprintUpdate) {lc : LocalCopy}
    (hcopy : f.localCopy = some lc) :
    ∃ lc', (publishedFile scanId published f).localCopy = some lc' ∧
      lc'.cloudOnlyVersionId = lc.cloudOnlyVersionId ∧ lc'.recoveredAt = lc.recoveredAt ∧
      (lc' = lc ∨ lc'.lastSeenAt = some scanId) := by
  induction published generalizing f lc with
  | nil => exact ⟨lc, hcopy, rfl, rfl, Or.inl rfl⟩
  | cons u us ih =>
      by_cases hid : f.id = u.row.vaultFileId
      · have hnext : (f.withCopy (u.copy scanId f)).localCopy = some (u.publish scanId lc) := by
          show u.copy scanId f = _
          rw [FingerprintUpdate.copy, if_pos hid, hcopy, Option.map_some]
        obtain ⟨hhold, hrec, hseen⟩ := publish_spec u scanId lc
        obtain ⟨lc', h1, h2, h3, h4⟩ := ih hnext
        refine ⟨lc', h1, h2.trans hhold, h3.trans hrec, ?_⟩
        rcases h4 with rfl | h4
        · exact hseen
        · exact Or.inr h4
      · have hnext : (f.withCopy (u.copy scanId f)).localCopy = some lc := by
          show u.copy scanId f = _
          rw [FingerprintUpdate.copy, if_neg hid, hcopy]
        exact ih hnext

/-- Updates of other files change nothing. -/
lemma publishedFile_of_ne (h : ∀ u ∈ published, f.id ≠ u.row.vaultFileId) :
    publishedFile scanId published f = f := by
  induction published with
  | nil => rfl
  | cons u us ih =>
      have hself : f.withCopy (u.copy scanId f) = f := by
        rw [FingerprintUpdate.copy, if_neg (h u mem_cons_self)]
        rfl
      show publishedFile scanId us (f.withCopy (u.copy scanId f)) = f
      rw [hself]
      exact ih fun w hw => h w (mem_cons_of_mem _ hw)

/-- A digest stays, once there is one. -/
lemma publishedFile_digest {lc : LocalCopy} (hcopy : f.localCopy = some lc)
    (h : lc.plaintextSha256 ≠ none) : publishedFile scanId published f = f := by
  induction published with
  | nil => rfl
  | cons u us ih =>
      have hpub : u.publish scanId lc = lc := if_neg fun hc => h hc.2.2.1
      have hself : f.withCopy (u.copy scanId f) = f := by
        rw [FingerprintUpdate.copy, hcopy, Option.map_some, hpub, ite_self, ← hcopy]
        rfl
      show publishedFile scanId us (f.withCopy (u.copy scanId f)) = f
      rw [hself]
      exact ih

/-- What `_unfingerprinted_local_rows` returned is a present file without a digest. -/
lemma mem_unfingerprintedLocalRows {r : UnfingerprintedRow} :
    r ∈ unfingerprintedLocalRows cat v ↔ ∃ f ∈ cat.files, f.vaultId = v ∧ f.status = .active ∧
      f.currentPath = some r.path ∧ f.id = r.vaultFileId ∧ ∃ lc, f.localCopy = some lc ∧
        lc.presence = .present ∧ lc.fileType = .regular ∧ lc.plaintextSha256 = none ∧
        lc.size = r.size ∧ lc.mtimeNs = r.mtimeNs := by
  rw [unfingerprintedLocalRows, mem_filterMap]
  refine exists_congr fun f => and_congr_right fun _ => ?_
  by_cases hactive : f.vaultId = v ∧ f.status = .active
  · obtain ⟨id, path, size, mtimeNs⟩ := r
    simp only [hactive, Option.bind_eq_some_iff, Option.ite_none_right_eq_some,
      Option.some.injEq, UnfingerprintedRow.mk.injEq, true_and]
    constructor
    · rintro ⟨p, hp, lc, hlc, ⟨h1, h2, h3⟩, hid, rfl, hsize, hmtime⟩
      exact ⟨hp, hid, lc, hlc, h1, h2, h3, hsize, hmtime⟩
    · rintro ⟨hp, hid, lc, hlc, h1, h2, h3, hsize, hmtime⟩
      exact ⟨path, hp, lc, hlc, ⟨h1, h2, h3⟩, hid, rfl, hsize, hmtime⟩
  · rw [if_neg hactive]
    refine iff_of_false (Option.some_ne_none _).symm ?_
    exact fun ⟨hv, hs, _⟩ => hactive ⟨hv, hs⟩

/-- A row without a digest that an update was read from gets one. -/
lemma publishedFile_ne {u : FingerprintUpdate} (hu : u ∈ published) {lc : LocalCopy}
    (hid : f.id = u.row.vaultFileId) (hcopy : f.localCopy = some lc)
    (hrow : lc.presence = .present ∧ lc.fileType = .regular ∧ lc.plaintextSha256 = none ∧
      lc.size = u.row.size ∧ lc.mtimeNs = u.row.mtimeNs) :
    publishedFile scanId published f ≠ f := by
  induction published with
  | nil => cases hu
  | cons w ws ih =>
      show publishedFile scanId ws (f.withCopy (w.copy scanId f)) ≠ f
      by_cases hw : f.id = w.row.vaultFileId ∧ w.publish scanId lc ≠ lc
      · -- this update writes the digest, and it stays
        have hnext : (f.withCopy (w.copy scanId f)).localCopy = some (w.publish scanId lc) := by
          show w.copy scanId f = _
          rw [FingerprintUpdate.copy, if_pos hw.1, hcopy, Option.map_some]
        have hdigest : (w.publish scanId lc).plaintextSha256 ≠ none := by
          unfold FingerprintUpdate.publish
          split
          · exact Option.some_ne_none _
          · rename_i hno
            exact absurd (if_neg hno) hw.2
        rw [publishedFile_digest hnext hdigest]
        intro heq
        rw [heq, hcopy] at hnext
        exact hw.2 (Option.some.inj hnext).symm
      · have hself : f.withCopy (w.copy scanId f) = f := by
          rw [FingerprintUpdate.copy]
          split
          · rename_i hwid
            rw [hcopy, Option.map_some, not_not.mp (not_and.mp hw hwid), ← hcopy]
            rfl
          · rfl
        rw [hself]
        refine ih ((mem_cons.mp hu).resolve_left ?_)
        rintro rfl
        refine not_and.mp hw hid fun heq => ?_
        have hsome := congrArg LocalCopy.plaintextSha256 heq
        rw [FingerprintUpdate.publish, if_pos hrow, hrow.2.2.1] at hsome
        cases hsome

lemma Minted.afterPublish {jobs : List Job} {g : VaultFile}
    (h : Minted cat v scanId observed jobs g) :
    Minted cat v scanId observed jobs (publishedFile scanId published g) := by
  obtain ⟨lc, hlc, hseen⟩ := h.lastSeenAt
  obtain ⟨lc', hlc', -, -, hsame⟩ := publishedFile_some scanId published hlc
  rw [publishedFile_eq]
  exact ⟨h.vaultId, h.currentPath, h.pathHistory, h.versions, h.deleteMarkers,
    ⟨lc', hlc', hsame.elim (fun heq => heq ▸ hseen) id⟩, h.unused⟩

/-- A walk and the fingerprints published after it. -/
lemma Scanned.afterPublish
    (h : Scanned cat v scanId batches cur journal) (published : List FingerprintUpdate) :
    ScanLeft cat v scanId
      (fun f => publishedFile scanId published (scannedFile v scanId batches f))
      (batches.flatMap batchPaths) (applyLocalFingerprintUpdates scanId cur published) journal := by
  obtain ⟨hfiles, hjobs⟩ := applyLocalFingerprintUpdates_files scanId cur published
  obtain ⟨new, hcur, hnew⟩ := h.files
  have hleft := leftBy_scannedFile v scanId batches
  refine ⟨⟨fun f => ?_, fun f hcopy lc' hlc' => ?_, fun f lc hcopy => ?_⟩,
    ⟨new.map (publishedFile scanId published), ?_, fun g hg => ?_⟩, h.entries, h.covers⟩
  · rw [publishedFile_eq, hleft.same]
    rfl
  · cases hscan : (scannedFile v scanId batches f).localCopy with
    | none =>
        rw [publishedFile_none hscan] at hlc'
        cases hlc'
    | some lc =>
        obtain ⟨lc₁, hlc₁, -, -, hsame⟩ := publishedFile_some scanId published hscan
        cases hlc₁.symm.trans hlc'
        exact hsame.elim (fun heq => heq ▸ hleft.inserted f hcopy lc hscan) id
  · obtain ⟨lc₁, hscan, hsame₁⟩ := hleft.updated f lc hcopy
    obtain ⟨lc', hlc', -, -, hsame⟩ := publishedFile_some scanId published hscan
    refine ⟨lc', hlc', ?_⟩
    rcases hsame with rfl | hseen
    · exact hsame₁
    · exact Or.inr hseen
  · rw [hfiles, hcur, map_append, map_map]
    rfl
  · obtain ⟨g₀, hg₀, rfl⟩ := mem_map.mp hg
    rw [hjobs]
    exact (hnew g₀ hg₀).afterPublish

/-- The remembered columns hide what was published. -/
lemma compensated_published (published : List FingerprintUpdate) (f : VaultFile) :
    compensated (fun f => publishedFile scanId published (scannedFile v scanId batches f)) f =
      compensated (scannedFile v scanId batches) f := by
  rw [compensated, compensated]
  cases hcopy : f.localCopy with
  | none => rfl
  | some lc =>
      obtain ⟨lc₁, hscan, -⟩ := (leftBy_scannedFile v scanId batches).updated f lc hcopy
      obtain ⟨lc', hlc', hhold, hrec, -⟩ := publishedFile_some scanId published hscan
      have hsame : lc'.restore lc.snapshot = lc₁.restore lc.snapshot := by
        simp only [LocalCopy.restore, hhold, hrec]
      simp only [Option.bind_some, hscan, hlc', Option.map_some, hsame]

/-! ### Failed scans -/

/-- **No hold is changed for good**: a copy reappears only where its hold already is the only
cloud copy. -/
def HoldsKept (cat : Catalog) (v : VaultId) (batches : List (List PendingEntry)) : Prop :=
  ∀ f ∈ cat.files, ∀ lc ∈ f.localCopy,
    reappears lc.presence (observedTypes v batches f) = true →
      f.onlyCloudCopy = lc.cloudOnlyVersionId

instance (cat : Catalog) (v : VaultId) (batches : List (List PendingEntry)) :
    Decidable (HoldsKept cat v batches) :=
  inferInstanceAs (Decidable (∀ f ∈ cat.files, ∀ lc ∈ f.localCopy, _ → _))

lemma holdsKept_iff (scanId : Stamp) : HoldsKept cat v batches ↔
    ∀ f ∈ cat.files, compensated (scannedFile v scanId batches) f = f :=
  forall₂_congr fun _ _ => (compensated_eq_self_iff scanId).symm

/-- The paths a journal has are those it was given. -/
lemma mem_journalPaths {paths : List Path} :
    p ∈ (journalPaths cur v journal paths).map Prod.fst →
      p ∈ journal.map Prod.fst ∨ p ∈ paths := by
  induction paths using List.reverseRecOn with
  | nil => exact Or.inl
  | append_singleton ps q ih =>
      rw [journalPaths, foldl_append, foldl_cons, foldl_nil, ← journalPaths]
      split
      · exact fun hp => (ih hp).imp_right (mem_append_left _)
      · rw [map_append, mem_append]
        rintro (hp | hp)
        · exact (ih hp).imp_right (mem_append_left _)
        · exact Or.inr (mem_append_right _ (by simpa using hp))

/-- The walk journals no path it does not observe. -/
lemma mem_of_scanBatches {vaults : VaultTable} {last : Catalog × Journal}
    (h : scanBatches vaults v scanId (cur, journal) batches = some last)
    (hp : p ∈ last.2.map Prod.fst) :
    p ∈ journal.map Prod.fst ∨ p ∈ batches.flatMap batchPaths := by
  induction batches generalizing cur journal with
  | nil =>
      cases h
      exact Or.inl hp
  | cons b bs ih =>
      obtain ⟨cur', -, hrest⟩ := Option.bind_eq_some_iff.mp h
      rw [flatMap_cons, mem_append]
      rcases ih hrest with hp | hp
      · exact (mem_journalPaths hp).imp_right Or.inl
      · exact Or.inr (Or.inr hp)

/-- **A failed scan is compensated exactly when no observed copy reappeared with another hold and
every published fingerprint is of a row the walk observed**, whatever batches were committed before
it failed: in the walk, whatever paths the failing batch had journaled, or after it, whatever
fingerprints were published by then. -/
theorem scan_compensated_iff (vaults : VaultTable) (cat cur : Catalog) (v : VaultId)
    (scanId : Stamp) (batches : List (List PendingEntry)) (journal : Journal)
    (hscan : scanBatches vaults v scanId (cat, []) batches = some (cur, journal)) :
    (∀ attempted : List Path,
      (rollbackLocalScanJournal v scanId cur (journalPaths cur v journal attempted)).files =
          cat.files ↔
        HoldsKept cat v batches) ∧
    ∀ (rows : List UnfingerprintedRow) (hashed : Path → Option HashedFile)
      (published : List FingerprintUpdate), rows.Perm (unfingerprintedLocalRows cur v) →
      published <+: collectLocalFingerprintUpdates rows hashed →
      ((rollbackLocalScanJournal v scanId (applyLocalFingerprintUpdates scanId cur published)
          journal).files = cat.files ↔
        HoldsKept cat v batches ∧ ∀ u ∈ published, u.row.path ∈ batches.flatMap batchPaths) := by
  have hscanned : Scanned cat v scanId batches cur journal :=
    scanned_batches (Scanned.start cat v scanId) hscan
  have hunobserved : ∀ {f : VaultFile} {paths : List Path},
      (∀ p ∈ batches.flatMap batchPaths, p ∈ paths) →
      ¬(f.vaultId = v ∧ (f.currentPath.any (· ∈ paths)) = true) →
      ¬(f.vaultId = v ∧ ∃ p ∈ batches.flatMap batchPaths, f.currentPath = some p) := by
    rintro f paths hcovers hnot ⟨hv, p, hp, hfp⟩
    exact hnot ⟨hv, by rw [hfp]; exact decide_eq_true (hcovers p hp)⟩
  refine ⟨fun attempted => ?_, fun rows hashed published hrows hpub => ?_⟩
  · have hall := (hscanned.journalPaths attempted).1
    rw [rollback_files_eq_iff hall.scanLeft, holdsKept_iff scanId]
    refine forall₂_congr fun f _ => ?_
    rw [undoneFile]
    split
    · rfl
    · rename_i hnot
      have hno := hunobserved hall.covers hnot
      rw [scannedFile_of_unobserved hno, compensated_of_unobserved hno]
  · -- the row an update was read from
    have hread : ∀ u ∈ published, ∃ g ∈ cur.files, g.vaultId = v ∧ g.currentPath = some u.row.path ∧
        g.id = u.row.vaultFileId ∧ ∃ lc, g.localCopy = some lc ∧ lc.presence = .present ∧
          lc.fileType = .regular ∧ lc.plaintextSha256 = none ∧ lc.size = u.row.size ∧
          lc.mtimeNs = u.row.mtimeNs := by
      intro u hu
      obtain ⟨r, hr, heq⟩ := mem_filterMap.mp (hpub.subset hu)
      obtain ⟨h, -, rfl⟩ := Option.map_eq_some_iff.mp heq
      obtain ⟨g, hg, hv, -, hrest⟩ := mem_unfingerprintedLocalRows.mp (hrows.subset hr)
      exact ⟨g, hg, hv, hrest⟩
    obtain ⟨new, hfiles, hnew⟩ := hscanned.files
    rw [rollback_files_eq_iff (hscanned.afterPublish published), holdsKept_iff scanId]
    constructor
    · intro h
      refine ⟨fun f hf => ?_, fun u hu => ?_⟩
      · have hfile := h f hf
        rw [undoneFile] at hfile
        split at hfile
        · rwa [compensated_published] at hfile
        · rename_i hnot
          exact compensated_of_unobserved (hunobserved hscanned.covers hnot)
      · by_contra hnot
        obtain ⟨g, hg, hv, hp, hid, lc, hcopy, hrow⟩ := hread u hu
        rw [hfiles] at hg
        rcases mem_append.mp hg with hg | hg
        · obtain ⟨f, hf, rfl⟩ := mem_map.mp hg
          have hno : ¬(f.vaultId = v ∧ ∃ p ∈ batches.flatMap batchPaths,
              f.currentPath = some p) := by
            rintro ⟨-, p, hpm, hfp⟩
            rw [scannedFile_eq] at hp
            exact hnot (Option.some.inj (hfp.symm.trans hp) ▸ hpm)
          rw [scannedFile_of_unobserved hno] at hv hp hid hcopy
          have hfile := h f hf
          rw [undoneFile, if_neg, scannedFile_of_unobserved hno] at hfile
          · exact publishedFile_ne hu hid hcopy hrow hfile
          · rintro ⟨-, hany⟩
            rw [hp, Option.any_some, decide_eq_true_eq] at hany
            exact hnot ((mem_of_scanBatches hscan hany).resolve_left not_mem_nil)
        · obtain ⟨p, hpm, hgp, -⟩ := (hnew g hg).currentPath
          exact hnot (Option.some.inj (hgp.symm.trans hp) ▸ hpm)
    · rintro ⟨hkept, hwalked⟩ f hf
      rw [undoneFile]
      split
      · rw [compensated_published]
        exact hkept f hf
      · rename_i hnot
        have hno := hunobserved hscanned.covers hnot
        rw [scannedFile_of_unobserved hno]
        refine publishedFile_of_ne fun u hu hid => ?_
        obtain ⟨g, hg, hv, hp, hgid, -⟩ := hread u hu
        have hcur : f ∈ cur.files := by
          rw [hfiles]
          exact mem_append_left _
            (mem_map.mpr ⟨f, hf, scannedFile_of_unobserved hno⟩)
        obtain rfl := cur.eq_of_id_eq hg hcur (hgid.trans hid.symm)
        exact hno ⟨hv, u.row.path, hwalked u hu, hp⟩

/-- A file that left the disk while its only verified copy stays in the cloud. -/
def vanishedCatalog (presence : Presence) : Catalog where
  files := [⟨1, 0, .active, some ['a'], 0, [],
    some ⟨presence, .regular, some 3, some 3, none, none, none, some 1, 1, some 1, none⟩,
    [⟨7, 1, 0, some 0, some 3, none, none, .verified, .available, some 1, none, 1, none,
      none, .upload, .upload⟩], []⟩]
  jobs := []
  items := []
  ids_nodup := by simp
  paths_unique := by simp
  versions_unique := by simp [VaultFile.versionKeys]
  jobIds_nodup := nodup_nil

/-- A walk over the single file `a`. -/
def walkOverA : List (List PendingEntry) := [[⟨⟨['a'], .regular, some 3, some 3, 5⟩, false⟩]]

/-- The file is seen again by a scan that fails: the copy stays held back. -/
theorem reappeared_hold_survives_rollback :
    ¬ ∀ (vaults : VaultTable) (cat cur : Catalog) (v : VaultId) (scanId : Stamp)
      (batches : List (List PendingEntry)) (attempted : List Path) (journal : Journal),
      scanBatches vaults v scanId (cat, []) batches = some (cur, journal) →
      (rollbackLocalScanJournal v scanId cur (journalPaths cur v journal attempted)).files =
        cat.files := by
  intro hall
  have h := hall (fun _ => none) (vanishedCatalog .missing) _ 0 9 walkOverA [] _ rfl
  cases h

/-- What is hashed at `a`. -/
def hashOfA : HashedFile := ⟨3, 3, 7, 6⟩

/-- A file that was present all along is compensated, also after its fingerprint was published. -/
theorem scan_compensated_present :
    ∃ cur journal,
      scanBatches (fun _ => none) 0 9 (vanishedCatalog .present, []) walkOverA =
        some (cur, journal) ∧
      (rollbackLocalScanJournal 0 9 cur (journalPaths cur 0 journal [])).files =
        (vanishedCatalog .present).files ∧
      ∃ published, published.length = 1 ∧
        published <+: collectLocalFingerprintUpdates (unfingerprintedLocalRows cur 0)
          (fun _ => some hashOfA) ∧
        (rollbackLocalScanJournal 0 9 (applyLocalFingerprintUpdates 9 cur published)
          journal).files = (vanishedCatalog .present).files := by
  refine ⟨_, _, rfl, ?_, _, rfl, prefix_rfl, ?_⟩
  · exact ((scan_compensated_iff (fun _ => none) (vanishedCatalog .present) _ 0 9 walkOverA _
      rfl).1 []).mpr (by decide)
  · refine ((scan_compensated_iff (fun _ => none) (vanishedCatalog .present) _ 0 9 walkOverA _
      rfl).2 _ (fun _ => some hashOfA) _ (List.Perm.refl _) prefix_rfl).mpr ⟨by decide, ?_⟩
    decide

end Frostvault
