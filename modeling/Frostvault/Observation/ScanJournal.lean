import Frostvault.Observation.Identities

/-!
The journal of a local scan (`_scan_tree`, `_verified_local_scan` and
`_rollback_local_scan_journal` of `app/storage.py`).

A scan commits its observations in batches and remembers, for every path it is about to
observe, the row it found there.  After the walk it hashes the present files without a digest and
commits these in batches, too; the journal learns of none.  When the scan fails, the journal is
played back: new files are removed, and the rows that still carry the scan's id get their
remembered columns.

The journal has no `cloud_only_version_id`, which the upsert writes when a Local Copy that was
not present reappears.

* `scanBatches`, `applyLocalFingerprintUpdates`: the walk and the fingerprints after it;
* `rollbackLocalScanJournal`: the compensation;
* `scannedFile`: what the committed batches do to one file;
* `scanned_batches`: what they leave, with the journal.
-/

namespace Frostvault

open List

/-! ### The scan -/

/-- A pending entry of the walk, and whether the walk invalidates its content. -/
structure PendingEntry where
  entry : LocalEntry
  invalidate : Bool

/-- The columns of a Local Copy the journal remembers. -/
structure CopySnapshot where
  presence : Presence
  fileType : FileType
  size : Option ℕ
  mtimeNs : Option ℤ
  plaintextSha256 : Option Digest
  matchedArchiveVersionId : Option RowId
  lastSeenAt : Option Stamp
  observedAt : Stamp
  contentObservedAt : Option Stamp

/-- What the journal remembers of a row. -/
def LocalCopy.snapshot (lc : LocalCopy) : CopySnapshot :=
  ⟨lc.presence, lc.fileType, lc.size, lc.mtimeNs, lc.plaintextSha256,
    lc.matchedArchiveVersionId, lc.lastSeenAt, lc.observedAt, lc.contentObservedAt⟩

/-- Write the remembered columns back. -/
def LocalCopy.restore (lc : LocalCopy) (s : CopySnapshot) : LocalCopy :=
  { lc with
    presence := s.presence
    fileType := s.fileType
    size := s.size
    mtimeNs := s.mtimeNs
    plaintextSha256 := s.plaintextSha256
    matchedArchiveVersionId := s.matchedArchiveVersionId
    lastSeenAt := s.lastSeenAt
    observedAt := s.observedAt
    contentObservedAt := s.contentObservedAt }

/-- The file a path belonged to, and its Local Copy if there was one. -/
structure JournalRow where
  fileId : FileId
  localCopy : Option CopySnapshot

/-- `scan_journal["entries"]`, in the order of insertion. -/
abbrev Journal := List (Path × Option JournalRow)

/-- The row the journal reads for a path. -/
def journalEntry (cat : Catalog) (v : VaultId) (p : Path) : Option JournalRow :=
  (cat.fileAt? v p).map fun f => ⟨f.id, f.localCopy.map LocalCopy.snapshot⟩

/-- Remember the paths the journal does not have yet. -/
def journalPaths (cat : Catalog) (v : VaultId) (journal : Journal) (paths : List Path) : Journal :=
  paths.foldl
    (fun j p => if j.any fun e => e.1 = p then j else j ++ [(p, journalEntry cat v p)]) journal

/-- Forget the content of the given paths. -/
def invalidateContent (cat : Catalog) (v : VaultId) (scanId : Stamp) (paths : List Path) :
    Catalog :=
  cat.mapLocalCopies fun f =>
    if f.vaultId = v ∧ f.currentPath.any (· ∈ paths) = true then
      f.localCopy.map fun lc =>
        { lc with
          contentObservedAt := some scanId
          plaintextSha256 := none
          matchedArchiveVersionId := none }
    else f.localCopy

/-- The catalog writes of `_scan_tree.flush`. -/
def flushBatch (vaults : VaultTable) (v : VaultId) (scanId : Stamp) (cat : Catalog)
    (batch : List PendingEntry) : Option Catalog :=
  (observeLocalCopiesBatch vaults cat v (batch.map PendingEntry.entry) (some scanId)).map fun cat' =>
    invalidateContent cat' v scanId
      ((batch.filter PendingEntry.invalidate).map fun e => e.entry.path)

/-- The paths of a batch. -/
def batchPaths (batch : List PendingEntry) : List Path := batch.map fun e => e.entry.path

/-- The committed batches of a scan: each is journaled, written and committed. -/
def scanBatches (vaults : VaultTable) (v : VaultId) (scanId : Stamp) :
    Catalog × Journal → List (List PendingEntry) → Option (Catalog × Journal)
  | st, [] => some st
  | st, batch :: batches =>
      (flushBatch vaults v scanId st.1 batch).bind fun cat' =>
        scanBatches vaults v scanId (cat', journalPaths st.1 v st.2 (batchPaths batch)) batches

/-! ### The fingerprints after the walk -/

/-- A row of `_unfingerprinted_local_rows`. -/
structure UnfingerprintedRow where
  vaultFileId : FileId
  path : Path
  size : Option ℕ
  mtimeNs : Option ℤ

/-- What hashing a regular file gives, with the time it was done. -/
structure HashedFile where
  size : ℕ
  mtimeNs : ℤ
  digest : Digest
  observedAt : Stamp

/-- An update that waits to be published. -/
structure FingerprintUpdate where
  row : UnfingerprintedRow
  found : HashedFile

/-- `_unfingerprinted_local_rows`: the present regular files without a digest. -/
def unfingerprintedLocalRows (cat : Catalog) (v : VaultId) : List UnfingerprintedRow :=
  cat.files.filterMap fun f =>
    if f.vaultId = v ∧ f.status = .active then
      f.currentPath.bind fun p => f.localCopy.bind fun lc =>
        if lc.presence = .present ∧ lc.fileType = .regular ∧ lc.plaintextSha256 = none then
          some ⟨f.id, p, lc.size, lc.mtimeNs⟩
        else none
    else none

/-- `_collect_local_fingerprint_updates`: what cannot be hashed is skipped. -/
def collectLocalFingerprintUpdates (rows : List UnfingerprintedRow)
    (hashed : Path → Option HashedFile) : List FingerprintUpdate :=
  rows.filterMap fun r => (hashed r.path).map fun h => ⟨r, h⟩

/-- The `UPDATE` of one row, which compares what was read before. -/
def FingerprintUpdate.publish (u : FingerprintUpdate) (scanId : Stamp) (lc : LocalCopy) :
    LocalCopy :=
  if lc.presence = .present ∧ lc.fileType = .regular ∧ lc.plaintextSha256 = none ∧
      lc.size = u.row.size ∧ lc.mtimeNs = u.row.mtimeNs then
    { lc with
      contentObservedAt :=
        if (lc.size, lc.mtimeNs) ≠ (some u.found.size, some u.found.mtimeNs) then
          some u.found.observedAt
        else lc.contentObservedAt
      size := some u.found.size
      mtimeNs := some u.found.mtimeNs
      plaintextSha256 := some u.found.digest
      matchedArchiveVersionId := none
      lastSeenAt := some scanId
      observedAt := u.found.observedAt }
  else lc

/-- The Local Copy of a file after an update. -/
def FingerprintUpdate.copy (u : FingerprintUpdate) (scanId : Stamp) (f : VaultFile) :
    Option LocalCopy :=
  if f.id = u.row.vaultFileId then f.localCopy.map (u.publish scanId) else f.localCopy

/-- `_apply_local_fingerprint_updates`, the updates that were committed. -/
def applyLocalFingerprintUpdates (scanId : Stamp) (cat : Catalog)
    (updates : List FingerprintUpdate) : Catalog :=
  updates.foldl (fun cat u => cat.mapLocalCopies (u.copy scanId)) cat

/-! ### The compensation -/

/-- Delete a file with its current path. -/
def Catalog.removeFile (cat : Catalog) (id : FileId) : Catalog :=
  { cat with
    files := cat.files.filter fun f => f.id ≠ id
    ids_nodup := (filter_sublist.map _).nodup cat.ids_nodup
    paths_unique := cat.paths_unique.sublist filter_sublist
    versions_unique := cat.versions_unique.sublist (filter_sublist.flatMap _) }

/-- The Local Copy of a journaled file, played back: a row the scan inserted is deleted, a row
it updated gets the remembered columns.  Rows with another `last_seen_at` are left alone. -/
def undoCopy (scanId : Stamp) (snapshot : Option CopySnapshot) (copy : Option LocalCopy) :
    Option LocalCopy :=
  match snapshot with
  | none => if (copy.any fun lc => lc.lastSeenAt = some scanId) = true then none else copy
  | some s => copy.map fun lc => if lc.lastSeenAt = some scanId then lc.restore s else lc

/-- One entry of the journal, played back.  The closed paths of a file go with its row
(`ON DELETE CASCADE`); its delete markers do not let it go (`ON DELETE RESTRICT`): the statement
raises, and with it the whole compensation. -/
def undoEntry (v : VaultId) (scanId : Stamp) (cat : Catalog) (e : Path × Option JournalRow) :
    Option Catalog :=
  match e.2 with
  | none =>
      match cat.fileAt? v e.1 with
      | none => some cat
      | some f =>
          if (f.localCopy.any fun lc => lc.lastSeenAt = some scanId) = true ∧ f.versions = [] ∧
              ∀ j ∈ cat.jobs, j.vaultFileId ≠ f.id then
            if f.deleteMarkers = [] then some (cat.removeFile f.id) else none
          else some cat
  | some row =>
      some (cat.mapLocalCopies fun f =>
        if f.id = row.fileId then undoCopy scanId row.localCopy f.localCopy else f.localCopy)

/-- `_rollback_local_scan_journal`: best effort, an exception leaves the catalog as it is. -/
def rollbackLocalScanJournal (v : VaultId) (scanId : Stamp) (cat : Catalog) (journal : Journal) :
    Catalog :=
  (journal.foldlM (undoEntry v scanId) cat).getD cat

/-! ### The hold after a scan -/

/-- The types a scan observes at the current path of a file, batch by batch. -/
def observedTypes (v : VaultId) (batches : List (List PendingEntry)) (f : VaultFile) :
    List FileType :=
  batches.filterMap fun b => (entryFor v (b.map PendingEntry.entry) f).map LocalEntry.fileType

/-- A copy that was not present is observed as a regular file. -/
def reappears : Presence → List FileType → Bool
  | _, [] => false
  | pr, t :: ts => (pr ≠ .present && presenceOf t = .present) || reappears (presenceOf t) ts

/-! ### One batch, file by file -/

variable {cat cat' : Catalog} {v : VaultId} {scanId : Stamp}

/-- `last_by_path` has the paths of the entries. -/
lemma mem_lastByPath_paths (entries : List LocalEntry) (p : Path) :
    p ∈ (lastByPath entries).map LocalEntry.path ↔ p ∈ entries.map LocalEntry.path := by
  induction entries using List.reverseRecOn with
  | nil => simp [lastByPath]
  | append_singleton es e ih =>
      rw [lastByPath_concat, map_append, mem_append, ← ih]
      split
      · rename_i hany
        have hsame : ((lastByPath es).map fun o => if o.path = e.path then e else o).map
            LocalEntry.path = (lastByPath es).map LocalEntry.path := by
          rw [map_map]
          refine map_congr_left fun o _ => ?_
          show (if o.path = e.path then e else o).path = o.path
          split
          · rename_i h
            exact h.symm
          · rfl
        rw [hsame]
        obtain ⟨o, ho, hpath⟩ := any_eq_true.mp hany
        have hmem : e.path ∈ (lastByPath es).map LocalEntry.path :=
          mem_map.mpr ⟨o, ho, by simpa using hpath⟩
        constructor
        · exact Or.inl
        · rintro (h | h)
          · exact h
          · obtain rfl : p = e.path := by simpa using h
            exact hmem
      · rw [map_append, mem_append]

/-- The Local Copy of a file after a flush. -/
def flushCopy (v : VaultId) (scanId : Stamp) (batch : List PendingEntry) (f : VaultFile) :
    Option LocalCopy :=
  let copy := batchCopy v (batch.map PendingEntry.entry) (some scanId) f
  if f.vaultId = v ∧ (f.currentPath.any
      (· ∈ (batch.filter PendingEntry.invalidate).map fun e => e.entry.path)) = true then
    copy.map fun lc =>
      { lc with
        contentObservedAt := some scanId
        plaintextSha256 := none
        matchedArchiveVersionId := none }
  else copy

/-- A file after a flush. -/
def flushFile (v : VaultId) (scanId : Stamp) (batch : List PendingEntry) (f : VaultFile) :
    VaultFile :=
  f.withCopy (flushCopy v scanId batch f)

/-- A file after the batches of a scan. -/
def scannedFile (v : VaultId) (scanId : Stamp) (batches : List (List PendingEntry))
    (f : VaultFile) : VaultFile :=
  batches.foldl (fun f batch => flushFile v scanId batch f) f

lemma scannedFile_concat (batches : List (List PendingEntry)) (batch : List PendingEntry)
    (f : VaultFile) :
    scannedFile v scanId (batches ++ [batch]) f =
      flushFile v scanId batch (scannedFile v scanId batches f) := by
  rw [scannedFile, foldl_append, foldl_cons, foldl_nil, ← scannedFile]

lemma scannedFile_eq (batches : List (List PendingEntry)) (f : VaultFile) :
    scannedFile v scanId batches f =
      f.withCopy (scannedFile v scanId batches f).localCopy := by
  induction batches using List.reverseRecOn with
  | nil => rfl
  | append_singleton bs b ih =>
      rw [scannedFile_concat, flushFile, ih]
      rfl

variable {batch : List PendingEntry} {batches done : List (List PendingEntry)} {cur : Catalog}
  {f : VaultFile} {journal : Journal} {vaults : VaultTable}

/-- A path that is not in the batch has no entry. -/
lemma entryFor_eq_none_iff :
    entryFor v (batch.map PendingEntry.entry) f = none ↔
      ¬(f.vaultId = v ∧ ∃ p ∈ batchPaths batch, f.currentPath = some p) := by
  rw [entryFor]
  split
  · rename_i hv
    rw [find?_eq_none]
    constructor
    · rintro h ⟨-, p, hp, hfp⟩
      have hmem : p ∈ (batch.map PendingEntry.entry).map LocalEntry.path := by
        rwa [map_map]
      obtain ⟨o, ho, rfl⟩ := mem_map.mp ((mem_lastByPath_paths _ _).mpr hmem)
      exact h o ho (by simpa using hfp)
    · intro h o ho hfp
      refine h ⟨hv, o.path, ?_, by simpa using hfp⟩
      have := (mem_lastByPath_paths _ _).mp (mem_map_of_mem ho)
      rwa [map_map] at this
  · rename_i hv
    simp [hv]

lemma flushCopy_of_entryFor_none (h : entryFor v (batch.map PendingEntry.entry) f = none) :
    flushCopy v scanId batch f = f.localCopy := by
  have hno := entryFor_eq_none_iff.mp h
  rw [flushCopy, batchCopy, h, if_neg]
  rintro ⟨hv, hany⟩
  obtain ⟨p, hp, hmem⟩ := (Option.any_eq_true _ _).mp hany
  obtain ⟨e, he, rfl⟩ := mem_map.mp (of_decide_eq_true hmem)
  exact hno ⟨hv, _, mem_map_of_mem (mem_filter.mp he).1, hp⟩

/-- The row a flush observes: the hold and the recovery stamp are those of the upsert. -/
lemma flushCopy_of_entryFor_some (scanId : Stamp) {o : LocalEntry}
    (h : entryFor v (batch.map PendingEntry.entry) f = some o) :
    ∃ lc, flushCopy v scanId batch f = some lc ∧ lc.lastSeenAt = some scanId ∧
      lc.presence = presenceOf o.fileType ∧
      lc.cloudOnlyVersionId =
        (observedCopy f.localCopy f.onlyCloudCopy o (some scanId)).cloudOnlyVersionId ∧
      lc.recoveredAt = (observedCopy f.localCopy f.onlyCloudCopy o (some scanId)).recoveredAt := by
  have hseen : (observedCopy f.localCopy f.onlyCloudCopy o (some scanId)).lastSeenAt =
      some scanId := by
    cases f.localCopy <;> rfl
  have hpres : (observedCopy f.localCopy f.onlyCloudCopy o (some scanId)).presence =
      presenceOf o.fileType := by
    cases f.localCopy <;> rfl
  rw [flushCopy, batchCopy, h]
  dsimp only
  split
  · exact ⟨_, rfl, hseen, hpres, rfl, rfl⟩
  · exact ⟨_, rfl, hseen, hpres, rfl, rfl⟩

/-- A file with a Local Copy, after the batches: the row is the old one or carries the scan's
id, and its hold is another one only where it reappeared. -/
lemma scannedFile_some (v : VaultId) (scanId : Stamp) (batches : List (List PendingEntry))
    {lc : LocalCopy} (h : f.localCopy = some lc) :
    ∃ lc', (scannedFile v scanId batches f).localCopy = some lc' ∧
      lc'.recoveredAt = lc.recoveredAt ∧
      lc'.cloudOnlyVersionId =
        (if reappears lc.presence (observedTypes v batches f) then f.onlyCloudCopy
          else lc.cloudOnlyVersionId) ∧
      (lc' = lc ∨ lc'.lastSeenAt = some scanId) := by
  induction batches generalizing f lc with
  | nil => exact ⟨lc, h, rfl, rfl, Or.inl rfl⟩
  | cons b bs ih =>
      have hstep : scannedFile v scanId (b :: bs) f =
          scannedFile v scanId bs (flushFile v scanId b f) := rfl
      have htypes : observedTypes v bs (flushFile v scanId b f) = observedTypes v bs f := rfl
      have honly : (flushFile v scanId b f).onlyCloudCopy = f.onlyCloudCopy := rfl
      cases hentry : entryFor v (b.map PendingEntry.entry) f with
      | none =>
          have hcopy : (flushFile v scanId b f).localCopy = some lc :=
            (flushCopy_of_entryFor_none hentry).trans h
          obtain ⟨lc', h1, h2, h3, h4⟩ := ih hcopy
          rw [htypes, honly] at h3
          refine ⟨lc', hstep ▸ h1, h2, ?_, h4⟩
          rw [h3, observedTypes, observedTypes, filterMap_cons, hentry]
          rfl
      | some o =>
          obtain ⟨mid, hmid, hseen, hpres, hhold, hrec⟩ :=
            flushCopy_of_entryFor_some scanId hentry
          have hcopy : (flushFile v scanId b f).localCopy = some mid := hmid
          obtain ⟨lc', h1, h2, h3, h4⟩ := ih hcopy
          rw [h] at hhold hrec
          refine ⟨lc', hstep ▸ h1, h2.trans hrec, ?_, Or.inr ?_⟩
          · rw [h3, htypes, honly, hpres, hhold]
            have hcons : observedTypes v (b :: bs) f = o.fileType :: observedTypes v bs f := by
              rw [observedTypes, filterMap_cons, hentry]
              rfl
            rw [hcons, reappears]
            simp only [observedCopy]
            -- reappearing in this batch or in a later one
            by_cases hlater : reappears (presenceOf o.fileType) (observedTypes v bs f)
            · simp [hlater]
            · by_cases hnow : presenceOf o.fileType = .present ∧ lc.presence ≠ .present
              · simp [hnow]
              · have hnot : (decide (lc.presence ≠ .present) &&
                    decide (presenceOf o.fileType = .present)) = false := by
                  rw [← Bool.not_eq_true, Bool.and_eq_true, decide_eq_true_eq, decide_eq_true_eq]
                  exact fun ⟨h1, h2⟩ => hnow ⟨h2, h1⟩
                rw [if_neg hlater, if_neg hnow, hnot, Bool.false_or, if_neg hlater]
          · rcases h4 with rfl | h4
            · exact hseen
            · exact h4

/-- A file without Local Copy, after the batches. -/
lemma scannedFile_none (h : f.localCopy = none) :
    ∀ lc ∈ (scannedFile v scanId batches f).localCopy, lc.lastSeenAt = some scanId := by
  induction batches using List.reverseRecOn with
  | nil =>
      intro lc hlc
      rw [scannedFile, foldl_nil, h] at hlc
      cases hlc
  | append_singleton bs b ih =>
      rw [scannedFile_concat]
      intro lc hlc
      cases hentry : entryFor v (b.map PendingEntry.entry) (scannedFile v scanId bs f) with
      | none =>
          rw [flushFile, flushCopy_of_entryFor_none hentry] at hlc
          exact ih lc hlc
      | some o =>
          obtain ⟨mid, hmid, hseen, -⟩ := flushCopy_of_entryFor_some scanId hentry
          have hcopy : mid = lc := by simpa [flushFile, VaultFile.withCopy, hmid] using hlc
          exact hcopy ▸ hseen

lemma scannedFile_of_unobserved
    (h : ¬(f.vaultId = v ∧ ∃ p ∈ batches.flatMap batchPaths, f.currentPath = some p)) :
    scannedFile v scanId batches f = f := by
  induction batches using List.reverseRecOn with
  | nil => rfl
  | append_singleton bs b ih =>
      rw [scannedFile_concat, ih, flushFile, flushCopy_of_entryFor_none]
      · rfl
      · rw [entryFor_eq_none_iff]
        rintro ⟨hv, p, hp, hfp⟩
        exact h ⟨hv, p, by simp [hp], hfp⟩
      · rintro ⟨hv, p, hp, hfp⟩
        refine h ⟨hv, p, ?_, hfp⟩
        rw [flatMap_append, mem_append]
        exact Or.inl hp

/-! ### The committed batches -/

/-- A file the scan minted: observed by it, and referred to by nothing. -/
structure Minted (cat : Catalog) (v : VaultId) (scanId : Stamp) (observed : List Path)
    (jobs : List Job) (g : VaultFile) : Prop where
  vaultId : g.vaultId = v
  currentPath : ∃ p ∈ observed, g.currentPath = some p ∧ cat.fileAt? v p = none
  pathHistory : g.pathHistory = []
  versions : g.versions = []
  deleteMarkers : g.deleteMarkers = []
  lastSeenAt : ∃ lc, g.localCopy = some lc ∧ lc.lastSeenAt = some scanId
  unused : ∀ j ∈ jobs, j.vaultFileId ≠ g.id

/-- **Where a scan stands** after the batches `done`: the old files with their observations,
minted files for the new paths, and a journal of the rows before the scan. -/
structure Scanned (cat : Catalog) (v : VaultId) (scanId : Stamp)
    (done : List (List PendingEntry)) (cur : Catalog) (journal : Journal) : Prop where
  files : ∃ new, cur.files = cat.files.map (scannedFile v scanId done) ++ new ∧
    ∀ g ∈ new, Minted cat v scanId (done.flatMap batchPaths) cur.jobs g
  entries : ∀ e ∈ journal, e.2 = journalEntry cat v e.1
  covers : ∀ p ∈ done.flatMap batchPaths, p ∈ journal.map Prod.fst

lemma Scanned.start (cat : Catalog) (v : VaultId) (scanId : Stamp) :
    Scanned cat v scanId [] cat [] where
  files := ⟨[], by
    rw [show scannedFile v scanId [] = id from rfl, map_id, append_nil], by simp⟩
  entries := by simp
  covers := by simp

/-- A path outside the batches is held by the file that held it before the scan. -/
lemma Scanned.fileAt? (h : Scanned cat v scanId done cur journal) {p : Path}
    (hp : p ∉ done.flatMap batchPaths) : cur.fileAt? v p = cat.fileAt? v p := by
  obtain ⟨new, hfiles, hnew⟩ := h.files
  have hscan : ∀ f : VaultFile, (scannedFile v scanId done f).vaultId = f.vaultId ∧
      (scannedFile v scanId done f).currentPath = f.currentPath := fun f => by
    rw [scannedFile_eq]
    exact ⟨rfl, rfl⟩
  cases hat : cat.fileAt? v p with
  | none =>
      rw [Catalog.fileAt?, find?_eq_none, hfiles]
      intro g hg hgp
      obtain ⟨hgv, hgp⟩ : g.vaultId = v ∧ g.currentPath = some p := by simpa using hgp
      rcases mem_append.mp hg with hg | hg
      · obtain ⟨f, hf, rfl⟩ := mem_map.mp hg
        rw [(hscan f).1] at hgv
        rw [(hscan f).2] at hgp
        exact Catalog.not_currentPath_of_fileAt?_none hat hf hgv hgp
      · obtain ⟨q, hq, hgq, -⟩ := (hnew g hg).currentPath
        rw [hgp] at hgq
        exact hp (Option.some.inj hgq ▸ hq)
  | some f =>
      obtain ⟨hf, hfv, hfp⟩ := Catalog.mem_of_fileAt? hat
      have hself : scannedFile v scanId done f = f := by
        refine scannedFile_of_unobserved ?_
        rintro ⟨-, q, hq, hfq⟩
        rw [hfp] at hfq
        exact hp (Option.some.inj hfq ▸ hq)
      have hmem : f ∈ cur.files := by
        rw [hfiles, mem_append]
        exact Or.inl (mem_map.mpr ⟨f, hf, hself⟩)
      cases hcur : cur.fileAt? v p with
      | none => exact absurd hfp (Catalog.not_currentPath_of_fileAt?_none hcur hmem hfv)
      | some g =>
          obtain ⟨hg, hgv, hgp⟩ := Catalog.mem_of_fileAt? hcur
          rw [cur.eq_of_path_eq hg hmem (hgv.trans hfv.symm) hgp hfp]

/-- Journaling more paths keeps the journal about the rows before the scan. -/
lemma Scanned.journalPaths (h : Scanned cat v scanId done cur journal) (paths : List Path) :
    Scanned cat v scanId done cur (journalPaths cur v journal paths) ∧
      ∀ p ∈ paths, p ∈ (Frostvault.journalPaths cur v journal paths).map Prod.fst := by
  induction paths using List.reverseRecOn with
  | nil => exact ⟨h, by simp⟩
  | append_singleton ps p ih =>
      obtain ⟨hrec, hcov⟩ := ih
      rw [Frostvault.journalPaths, foldl_append, foldl_cons, foldl_nil,
        ← Frostvault.journalPaths]
      generalize Frostvault.journalPaths cur v journal ps = j at hrec hcov ⊢
      split
      · rename_i hany
        refine ⟨hrec, fun q hq => ?_⟩
        rcases mem_append.mp hq with hq | hq
        · exact hcov q hq
        · obtain ⟨e, he, hep⟩ := any_eq_true.mp hany
          obtain rfl : q = p := by simpa using hq
          exact mem_map.mpr ⟨e, he, by simpa using hep⟩
      · rename_i hany
        have hp : p ∉ done.flatMap batchPaths := by
          intro hp
          obtain ⟨e, he, hep⟩ := mem_map.mp (hrec.covers p hp)
          exact hany (any_eq_true.mpr ⟨e, he, by simpa using hep⟩)
        refine ⟨⟨hrec.files, ?_, ?_⟩, ?_⟩
        · intro e he
          rcases mem_append.mp he with he | he
          · exact hrec.entries e he
          · rw [mem_singleton.mp he]
            simp only [journalEntry, h.fileAt? hp]
        · intro q hq
          rw [map_append, mem_append]
          exact Or.inl (hrec.covers q hq)
        · intro q hq
          rw [map_append, mem_append]
          rcases mem_append.mp hq with hq | hq
          · exact Or.inl (hcov q hq)
          · exact Or.inr (by simpa using hq)

lemma flushBatch_spec (h : flushBatch vaults v scanId cat batch = some cat') :
    ∃ created,
      (∀ g ∈ created, ∃ p ∈ batchPaths batch, cat.fileAt? v p = none ∧ Blank v p g) ∧
      (∀ g ∈ created, ∀ j ∈ cat.jobs, j.vaultFileId ≠ g.id) ∧
      cat'.files = (cat.files ++ created).map (flushFile v scanId batch) ∧
      cat'.jobs.map Job.vaultFileId = cat.jobs.map Job.vaultFileId := by
  obtain ⟨mid, hmid, rfl⟩ := Option.map_eq_some_iff.mp h
  obtain ⟨created, hblank, hunused, hfiles, hjobs⟩ := observeLocalCopiesBatch_spec hmid
  refine ⟨created, ?_, hunused, ?_, hjobs⟩
  · intro g hg
    obtain ⟨o, ho, hnone, hg⟩ := hblank g hg
    refine ⟨o.path, ?_, hnone, hg⟩
    have := (mem_lastByPath_paths _ _).mp (mem_map_of_mem ho)
    rwa [map_map] at this
  · show mid.files.map _ = _
    rw [hfiles, map_map]
    rfl

lemma forall_job_of_vaultFileIds {jobs jobs' : List Job} {P : FileId → Prop}
    (heq : jobs'.map Job.vaultFileId = jobs.map Job.vaultFileId)
    (h : ∀ j ∈ jobs, P j.vaultFileId) : ∀ j ∈ jobs', P j.vaultFileId := by
  intro j hj
  have hmem : j.vaultFileId ∈ jobs.map Job.vaultFileId := heq ▸ mem_map_of_mem hj
  obtain ⟨k, hk, hkj⟩ := mem_map.mp hmem
  exact hkj ▸ h k hk

/-- A minted file that another batch goes over. -/
lemma Minted.flush {observed : List Path} {jobs jobs' : List Job} {g : VaultFile}
    (h : Minted cat v scanId observed jobs g) (batch : List PendingEntry)
    (hjobs : jobs'.map Job.vaultFileId = jobs.map Job.vaultFileId) :
    Minted cat v scanId (observed ++ batchPaths batch) jobs' (flushFile v scanId batch g) where
  vaultId := h.vaultId
  currentPath := by
    obtain ⟨p, hp, hrest⟩ := h.currentPath
    exact ⟨p, mem_append_left _ hp, hrest⟩
  pathHistory := h.pathHistory
  versions := h.versions
  deleteMarkers := h.deleteMarkers
  lastSeenAt := by
    cases hentry : entryFor v (batch.map PendingEntry.entry) g with
    | none =>
        obtain ⟨lc, hlc, hseen⟩ := h.lastSeenAt
        exact ⟨lc, (flushCopy_of_entryFor_none hentry).trans hlc, hseen⟩
    | some o =>
        obtain ⟨lc, hlc, hseen, -⟩ := flushCopy_of_entryFor_some scanId hentry
        exact ⟨lc, hlc, hseen⟩
  unused := forall_job_of_vaultFileIds (P := fun id => id ≠ g.id) hjobs h.unused

lemma Blank.minted {observed : List Path} {jobs : List Job} {g : VaultFile} {p : Path}
    (h : Blank v p g) (hp : p ∈ batchPaths batch)
    (hnone : cat.fileAt? v p = none) (hunused : ∀ j ∈ jobs, j.vaultFileId ≠ g.id) :
    Minted cat v scanId (observed ++ batchPaths batch) jobs (flushFile v scanId batch g) where
  vaultId := h.vaultId
  currentPath := ⟨p, mem_append_right _ hp, h.currentPath, hnone⟩
  pathHistory := h.pathHistory
  versions := h.versions
  deleteMarkers := h.deleteMarkers
  lastSeenAt := by
    cases hentry : entryFor v (batch.map PendingEntry.entry) g with
    | none => exact absurd ⟨h.vaultId, p, hp, h.currentPath⟩ (entryFor_eq_none_iff.mp hentry)
    | some o =>
        obtain ⟨lc, hlc, hseen, -⟩ := flushCopy_of_entryFor_some scanId hentry
        exact ⟨lc, hlc, hseen⟩
  unused := hunused

lemma Scanned.flush {cur' : Catalog} (h : Scanned cat v scanId done cur journal)
    (hflush : flushBatch vaults v scanId cur batch = some cur') :
    Scanned cat v scanId (done ++ [batch]) cur'
      (Frostvault.journalPaths cur v journal (batchPaths batch)) := by
  obtain ⟨created, hblank, hunused, hfiles', hjobs⟩ := flushBatch_spec hflush
  obtain ⟨hrec, hcov⟩ := h.journalPaths (batchPaths batch)
  obtain ⟨new, hfiles, hnew⟩ := h.files
  have hpaths : (done ++ [batch]).flatMap batchPaths =
      done.flatMap batchPaths ++ batchPaths batch := by simp
  refine ⟨⟨(new ++ created).map (flushFile v scanId batch), ?_, ?_⟩, hrec.entries, ?_⟩
  · rw [hfiles', hfiles, append_assoc, map_append, map_map]
    congr 1
    exact map_congr_left fun f _ => (scannedFile_concat done batch f).symm
  · intro g hg
    rw [hpaths]
    obtain ⟨g₀, hg₀, rfl⟩ := mem_map.mp hg
    rcases mem_append.mp hg₀ with hg₀ | hg₀
    · exact (hnew g₀ hg₀).flush batch hjobs
    · obtain ⟨p, hp, hnone, hgb⟩ := hblank g₀ hg₀
      refine hgb.minted hp ?_
        (forall_job_of_vaultFileIds (P := fun id => id ≠ g₀.id) hjobs (hunused g₀ hg₀))
      -- nobody holds the path now, so nobody held it before the scan
      by_contra hsome
      obtain ⟨f, hf⟩ := Option.ne_none_iff_exists'.mp hsome
      obtain ⟨hmem, hfv, hfp⟩ := Catalog.mem_of_fileAt? hf
      refine Catalog.not_currentPath_of_fileAt?_none hnone
        (f := scannedFile v scanId done f) ?_ ?_ ?_
      · rw [hfiles]
        exact mem_append_left _ (mem_map_of_mem hmem)
      · rw [scannedFile_eq]
        exact hfv
      · rw [scannedFile_eq]
        exact hfp
  · rw [hpaths]
    intro p hp
    rcases mem_append.mp hp with hp | hp
    · exact hrec.covers p hp
    · exact hcov p hp

/-- **The committed batches of a scan.** -/
lemma scanned_batches {last : Catalog × Journal} (h : Scanned cat v scanId done cur journal)
    (hscan : scanBatches vaults v scanId (cur, journal) batches = some last) :
    Scanned cat v scanId (done ++ batches) last.1 last.2 := by
  induction batches generalizing done cur journal with
  | nil =>
      cases hscan
      simpa using h
  | cons b bs ih =>
      obtain ⟨cur', hflush, hrest⟩ := Option.bind_eq_some_iff.mp hscan
      have := ih (h.flush hflush) hrest
      rwa [append_assoc] at this

end Frostvault
