import Frostvault.Aggregates.Flush
import Frostvault.Deletion.CloudDeletion

/-!
Observations of Local Copies (`app/catalog.py`): what the scanner, the watcher and the workers
record about the files on disk, and the dirty marks each operation leaves
(`app/services/directory_aggregates.py`).

An operation runs inside one transaction; one that raises is `none` and leaves no trace.

* `observedCopy`: the upsert both observation functions write;
* `observeLocalCopiesBatch`, `markLocalPathMissing`, `confirmFileRename`, ..: the operations
  on the catalog;
* `markPathDirty`, `markDirectoryDirty`, `markPathsDirty`: the marks;
* `LocalOp.run`: an operation with its marks.
-/

namespace Frostvault

/-! ### The upsert of a Local Copy -/

/-- One scanned entry, `(path, file_type, size, mtime_ns, observed_at)`. -/
structure LocalEntry where
  path : Path
  fileType : FileType
  size : Option ℕ
  mtimeNs : Option ℤ
  observedAt : Stamp
deriving DecidableEq, Repr

/-- `"present" if file_type == "regular" else "unsupported"`. -/
def presenceOf (t : FileType) : Presence := if t = .regular then .present else .unsupported

/-- The observation found the content it knew: same type, size and modification time. -/
def LocalCopy.unchangedBy (lc : LocalCopy) (e : LocalEntry) : Bool :=
  lc.fileType = e.fileType && lc.size = e.size && lc.mtimeNs = e.mtimeNs

/-- The row after an observation: an insert, or the update of the row that is there.
`onlyCloud` is the version a reappearing copy must respect. -/
def observedCopy (old : Option LocalCopy) (onlyCloud : Option RowId) (e : LocalEntry)
    (seenAt : Option Stamp) : LocalCopy :=
  let presence := presenceOf e.fileType
  let hold := if presence = .present then onlyCloud else none
  match old with
  | none =>
      { presence := presence
        fileType := e.fileType
        size := e.size
        mtimeNs := e.mtimeNs
        plaintextSha256 := none
        matchedArchiveVersionId := none
        cloudOnlyVersionId := hold
        lastSeenAt := some (seenAt.getD e.observedAt)
        observedAt := e.observedAt
        contentObservedAt := some e.observedAt
        recoveredAt := none }
  | some lc =>
      { presence := presence
        fileType := e.fileType
        size := e.size
        mtimeNs := e.mtimeNs
        plaintextSha256 := if lc.unchangedBy e then lc.plaintextSha256 else none
        matchedArchiveVersionId := if lc.unchangedBy e then lc.matchedArchiveVersionId else none
        cloudOnlyVersionId :=
          if presence = .present ∧ lc.presence ≠ .present then hold else lc.cloudOnlyVersionId
        lastSeenAt := some (seenAt.getD e.observedAt)
        observedAt := e.observedAt
        contentObservedAt :=
          if lc.presence = presence ∧ lc.unchangedBy e then
            some (lc.contentObservedAt.getD lc.observedAt)
          else some e.observedAt
        recoveredAt := lc.recoveredAt }

/-- A file with another Local Copy. -/
def VaultFile.withCopy (f : VaultFile) (lc : Option LocalCopy) : VaultFile :=
  { f with localCopy := lc }

/-- One rewriting of Local Copies after another. -/
lemma mapLocalCopies_mapLocalCopies (cat : Catalog) (g h : VaultFile → Option LocalCopy) :
    (cat.mapLocalCopies g).mapLocalCopies h = cat.mapLocalCopies fun f => h (f.withCopy (g f)) := by
  refine Catalog.eq_of_rows ?_ rfl rfl
  simp only [Catalog.mapLocalCopies, Catalog.mapFiles, List.map_map]
  rfl

/-! ### Identities -/

/-- `_get_or_create_file`. -/
def getOrCreateFile (cat : Catalog) (v : VaultId) (p : Path) (createdAt : Stamp) :
    Catalog × FileId :=
  match h : cat.fileAt? v p with
  | some f => (cat, f.id)
  | none => (cat.insertFile v p createdAt h, cat.freshId)

/-- A new identity has no Job and no item. -/
lemma getOrCreateFile_rows (cat : Catalog) (v : VaultId) (p : Path) (at_ : Stamp) :
    (getOrCreateFile cat v p at_).1.jobs = cat.jobs ∧
      (getOrCreateFile cat v p at_).1.items = cat.items := by
  unfold getOrCreateFile
  split <;> exact ⟨rfl, rfl⟩

/-- Resolve one path of a batch. -/
def resolvePath (v : VaultId) (createdAt : Stamp) (acc : Catalog × List (Path × FileId))
    (p : Path) : Catalog × List (Path × FileId) :=
  let res := getOrCreateFile acc.1 v p createdAt
  (res.1, acc.2 ++ [(p, res.2)])

/-- `_resolve_or_create_files`: the catalog with every path resolved, and the id of each.  The
source goes through the paths in chunks of 200. -/
def resolveOrCreateFiles (cat : Catalog) (v : VaultId) (paths : List Path) (createdAt : Stamp) :
    Catalog × List (Path × FileId) :=
  paths.dedup.foldl (resolvePath v createdAt) (cat, [])

/-- `_cancel_reappeared_deletions`: a reappearance revokes the pending consent of the whole
request. -/
def cancelReappearedDeletions (vaults : VaultTable) (cat : Catalog) (v : VaultId)
    (ids : List FileId) : Option Catalog :=
  let groups := ((cat.jobs.filter fun j =>
    j.vaultId = v && j.vaultFileId ∈ ids && j.action = .cloudPurge &&
      j.status = .pendingDelay).map Job.groupId).dedup
  groups.foldlM (fun cat g => g.bind fun g => cancelCloudDeletion vaults cat v g) cat

/-! ### Operations on the catalog -/

/-- `observe_local_copy`.  A recovery writes back the cloud-only content itself, so it holds
nothing back and restarts the retention window. -/
def observeLocalCopy (vaults : VaultTable) (cat : Catalog) (v : VaultId) (e : LocalEntry)
    (seenAt recoveredAt : Option Stamp) : Option Catalog :=
  let (cat', id) := getOrCreateFile cat v e.path e.observedAt
  let written := cat'.mapLocalCopies fun f =>
    if f.id = id then
      let lc := observedCopy f.localCopy (if recoveredAt.isNone then f.onlyCloudCopy else none)
        e seenAt
      some { lc with recoveredAt := recoveredAt.orElse fun _ => lc.recoveredAt }
    else f.localCopy
  cancelReappearedDeletions vaults written v [id]

/-- `last_by_path`: one entry per path, the last one, where the path first occurred. -/
def lastByPath (entries : List LocalEntry) : List LocalEntry :=
  entries.foldl
    (fun acc e =>
      if acc.any fun o => o.path = e.path then acc.map fun o => if o.path = e.path then e else o
      else acc ++ [e]) []

/-- `observe_local_copies_batch`. -/
def observeLocalCopiesBatch (vaults : VaultTable) (cat : Catalog) (v : VaultId)
    (entries : List LocalEntry) (seenAt : Option Stamp) : Option Catalog :=
  match lastByPath entries with
  | [] => some cat
  | e :: es =>
      let ordered := e :: es
      let (cat', fileIds) :=
        resolveOrCreateFiles cat v (ordered.map LocalEntry.path) e.observedAt
      -- the derived table `s`: an entry with the id its path resolved to
      let rowOf := fun id : FileId =>
        ordered.find? fun o => fileIds.any fun pid => pid.1 = o.path && pid.2 = id
      let written := cat'.mapLocalCopies fun f =>
        match rowOf f.id with
        | some o => some (observedCopy f.localCopy f.onlyCloudCopy o seenAt)
        | none => f.localCopy
      cancelReappearedDeletions vaults written v (fileIds.map Prod.snd)

/-- `SET presence='missing', observed_at=%s`. -/
def LocalCopy.gone (lc : LocalCopy) (observedAt : Stamp) : LocalCopy :=
  { lc with presence := .missing, observedAt := observedAt }

/-- `mark_local_copy_missing`. -/
def markLocalCopyMissing (cat : Catalog) (id : FileId) (observedAt : Stamp) : Catalog :=
  cat.mapLocalCopies fun f =>
    if f.id = id then f.localCopy.map (LocalCopy.gone · observedAt) else f.localCopy

/-- `observe_replaced_local_copy`. -/
def observeReplacedLocalCopy (cat : Catalog) (id : FileId) (t : FileType) (size : Option ℕ)
    (mtimeNs : Option ℤ) (observedAt : Stamp) : Catalog :=
  cat.mapLocalCopies fun f =>
    if f.id = id then
      f.localCopy.map fun lc =>
        { lc with
          presence := presenceOf t
          fileType := t
          size := size
          mtimeNs := mtimeNs
          plaintextSha256 := none
          matchedArchiveVersionId := none
          cloudOnlyVersionId := if presenceOf t = .present then f.onlyCloudCopy else none
          lastSeenAt := some observedAt
          observedAt := observedAt }
    else f.localCopy

/-- `fp.path=%s OR fp.path LIKE %s ESCAPE '\'`: the path itself or one below it. -/
def atOrBelow (p q : Path) : Bool := q = p || Text.like q (Text.escapeLike p ++ ['/', '%'])

/-- `mark_local_path_missing`. -/
def markLocalPathMissing (cat : Catalog) (v : VaultId) (p : Path) (observedAt : Stamp) :
    Catalog :=
  cat.mapLocalCopies fun f =>
    if f.vaultId = v ∧ f.currentPath.any (atOrBelow p) = true then
      f.localCopy.map (LocalCopy.gone · observedAt)
    else f.localCopy

/-- The rows `mark_unseen_local_copies_missing` updates. -/
def LocalCopy.unseen (lc : LocalCopy) (seenAt : Stamp) (scanStartedAt : Option Stamp) : Bool :=
  (lc.presence = .present || lc.presence = .unsupported) && lc.lastSeenAt ≠ some seenAt &&
    scanStartedAt.all fun s => lc.observedAt ≤ s

/-- `mark_unseen_local_copies_missing`. -/
def markUnseenLocalCopiesMissing (cat : Catalog) (v : VaultId) (seenAt observedAt : Stamp)
    (scanStartedAt : Option Stamp) : Catalog :=
  cat.mapLocalCopies fun f =>
    if f.vaultId = v then
      f.localCopy.map fun lc =>
        if lc.unseen seenAt scanStartedAt then lc.gone observedAt else lc
    else f.localCopy

/-- The version with a given id, of whatever file. -/
def Catalog.version? (cat : Catalog) (id : RowId) : Option ArchiveVersion :=
  (cat.files.flatMap VaultFile.versions).find? fun w => w.id = id

/-- One row of `settle_cloud_only_copies`: the hold is lifted, or the copy is recognised as
the version it was held for.  Other content stays held back. -/
def settleCloudOnly (cat : Catalog) (lc : LocalCopy) : LocalCopy :=
  match lc.cloudOnlyVersionId with
  | none => lc
  | some id =>
      match cat.version? id with
      | none => { lc with cloudOnlyVersionId := none }
      | some w =>
          if w.integrity ≠ .verified ∨ w.availability ≠ .available then
            { lc with cloudOnlyVersionId := none }
          else if lc.presence = .present ∧ lc.fileType = .regular ∧
              lc.plaintextSha256.isSome ∧ lc.plaintextSha256 = w.plaintextSha256 then
            { lc with matchedArchiveVersionId := some id, cloudOnlyVersionId := none }
          else lc

/-- `set_local_fingerprint`: the digest, then `settle_cloud_only_copies` for the path. -/
def setLocalFingerprint (cat : Catalog) (v : VaultId) (p : Path) (digest : Digest)
    (matched : Option RowId) : Catalog :=
  cat.mapLocalCopies fun f =>
    if f.vaultId = v ∧ f.currentPath = some p then
      f.localCopy.map fun lc => settleCloudOnly cat
        { lc with plaintextSha256 := some digest, matchedArchiveVersionId := matched }
    else f.localCopy

/-! ### Confirmed renames -/

/-- `AUTO_RENAME_WINDOW`, in seconds. -/
def autoRenameWindow : ℕ := 60 * 60

/-- A row `list_rename_candidates` considers for a digest, on disk or gone. -/
def isRenameRow (v : VaultId) (digest : Digest) (presence : Presence) (f : VaultFile) : Bool :=
  f.vaultId = v && f.status = .active && f.currentPath.isSome &&
    f.localCopy.any fun lc => lc.fileType = .regular && lc.plaintextSha256 = some digest &&
      lc.presence = presence && lc.cloudOnlyVersionId.isNone

/-- The file has a Job that is not terminal. -/
def hasPendingJob (cat : Catalog) (id : FileId) : Bool :=
  cat.jobs.any fun j => j.vaultFileId = id && !j.status.terminal

/-- `list_rename_candidates` for one digest: the only missing and the only present file with
it, seen within the window, the present one without archive and both without work. -/
def renameCandidate (cat : Catalog) (v : VaultId) (digest : Digest) :
    Option (VaultFile × VaultFile) :=
  match cat.files.filter (isRenameRow v digest .missing),
      cat.files.filter (isRenameRow v digest .present) with
  | [m], [p] =>
      match m.localCopy, p.localCopy with
      | some mc, some pc =>
          if (mc.observedAt - pc.observedAt) + (pc.observedAt - mc.observedAt) ≤ autoRenameWindow ∧
              p.versions = [] ∧ hasPendingJob cat p.id = false ∧ hasPendingJob cat m.id = false
          then some (m, p) else none
      | _, _ => none
  | _, _ => none

/-- `_load_rename_candidate`: the missing file and the provisional one at the new path. -/
def loadRenameCandidate (cat : Catalog) (v : VaultId) (id : FileId) (newPath : Path) :
    Option (VaultFile × VaultFile × Digest) := do
  let m ← cat.file? id
  let p ← cat.fileAt? v newPath
  let digest ← m.localCopy.bind LocalCopy.plaintextSha256
  guard (isRenameRow v digest .missing m ∧ isRenameRow v digest .present p ∧ p.id ≠ m.id)
  some (m, p, digest)

/-- Close the current path of a file. -/
def VaultFile.closePath (f : VaultFile) (changedAt : Stamp) : VaultFile :=
  { f with
    currentPath := none
    pathHistory := f.pathHistory ++
      (f.currentPath.map fun p => (⟨p, f.pathSince, changedAt⟩ : PathRow)).toList }

/-- The provisional file is retired, without path and Local Copy. -/
def VaultFile.retire (f : VaultFile) (changedAt : Stamp) : VaultFile :=
  { f.closePath changedAt with status := .retired, localCopy := none }

/-- The missing file moves to the new path and takes over the provisional Local Copy, except
for its hold, its stability stamp and its recovery stamp. -/
def VaultFile.moveTo (f : VaultFile) (newPath : Path) (changedAt : Stamp)
    (provisional : Option LocalCopy) : VaultFile :=
  { f.closePath changedAt with
    currentPath := some newPath
    pathSince := changedAt
    localCopy := f.localCopy.map fun lc => match provisional with
      | none => lc
      | some pc =>
          { lc with
            presence := pc.presence
            fileType := pc.fileType
            size := pc.size
            mtimeNs := pc.mtimeNs
            plaintextSha256 := pc.plaintextSha256
            matchedArchiveVersionId := pc.matchedArchiveVersionId
            lastSeenAt := some (pc.lastSeenAt.getD changedAt)
            observedAt := pc.observedAt } }

/-- What a confirmed rename of `m` to the path of `p` does to a file. -/
def renamePair (m p : VaultFile) (newPath : Path) (changedAt : Stamp) (f : VaultFile) :
    VaultFile :=
  if f.id = p.id then f.retire changedAt
  else if f.id = m.id then f.moveTo newPath changedAt p.localCopy
  else f

/-- Only the renamed file can hold the new path afterwards. -/
lemma renamePair_newPath {cat : Catalog} {m p f : VaultFile} {newPath q : Path} {at_ : Stamp}
    (hp : p ∈ cat.files) (hpath : p.currentPath = some newPath) (hf : f ∈ cat.files)
    (hv : f.vaultId = p.vaultId) (h : (renamePair m p newPath at_ f).currentPath = some q) :
    (f.id = m.id ∧ f.id ≠ p.id ∧ q = newPath) ∨
      (f.id ≠ m.id ∧ f.currentPath = some q ∧ q ≠ newPath) := by
  unfold renamePair at h
  split at h
  · simp [VaultFile.retire, VaultFile.closePath] at h
  · rename_i hne
    split at h
    · rename_i heq
      simp only [VaultFile.moveTo, Option.some.injEq] at h
      exact Or.inl ⟨heq, hne, h.symm⟩
    · rename_i hnm
      refine Or.inr ⟨hnm, h, ?_⟩
      rintro rfl
      -- the path belonged to the provisional file alone
      exact hne (congrArg VaultFile.id (cat.eq_of_path_eq hf hp hv h hpath))

lemma renamePair_id (m p : VaultFile) (newPath : Path) (at_ : Stamp) (f : VaultFile) :
    (renamePair m p newPath at_ f).id = f.id := by
  unfold renamePair
  split
  · rfl
  · split <;> rfl

lemma renamePair_vaultId (m p : VaultFile) (newPath : Path) (at_ : Stamp) (f : VaultFile) :
    (renamePair m p newPath at_ f).vaultId = f.vaultId := by
  unfold renamePair
  split
  · rfl
  · split <;> rfl

lemma renamePair_versions (m p : VaultFile) (newPath : Path) (at_ : Stamp) (f : VaultFile) :
    (renamePair m p newPath at_ f).versions = f.versions := by
  unfold renamePair
  split
  · rfl
  · split <;> rfl

/-- The catalog after a confirmed rename. -/
def Catalog.renameFiles (cat : Catalog) (m p : VaultFile) (newPath : Path) (changedAt : Stamp)
    (hp : p ∈ cat.files) (hv : p.vaultId = m.vaultId) (hm : m ∈ cat.files)
    (hpath : p.currentPath = some newPath) : Catalog where
  files := cat.files.map (renamePair m p newPath changedAt)
  jobs := cat.jobs
  items := cat.items
  ids_nodup := by
    rw [List.map_map, show VaultFile.id ∘ renamePair m p newPath changedAt = VaultFile.id from
      funext fun f => renamePair_id m p newPath changedAt f]
    exact cat.ids_nodup
  paths_unique := by
    rw [List.pairwise_map]
    have hids : cat.files.Pairwise fun a b => a.id ≠ b.id := List.pairwise_map.mp cat.ids_nodup
    refine (hids.and cat.paths_unique).imp_of_mem fun {a b} ha hb ⟨hne, hab⟩ hvv q hqa hqb => ?_
    rw [renamePair_vaultId, renamePair_vaultId] at hvv
    by_cases hav : a.vaultId = p.vaultId
    · have hbv : b.vaultId = p.vaultId := hvv ▸ hav
      rcases renamePair_newPath hp hpath ha hav hqa with ⟨h1, -, rfl⟩ | ⟨-, h1, h2⟩
      · rcases renamePair_newPath hp hpath hb hbv hqb with ⟨h3, -, -⟩ | ⟨-, -, h3⟩
        · exact hne (h1.trans h3.symm)
        · exact h3 rfl
      · rcases renamePair_newPath hp hpath hb hbv hqb with ⟨-, -, rfl⟩ | ⟨-, h3, -⟩
        · exact h2 rfl
        · exact hab hvv q h1 h3
    · -- files of other Vaults are left alone
      have hother : ∀ f ∈ cat.files, f.vaultId = a.vaultId →
          renamePair m p newPath changedAt f = f := by
        intro f hf hfv
        have h1 : f.id ≠ p.id := fun h => hav (cat.eq_of_id_eq hf hp h ▸ hfv.symm)
        have h2 : f.id ≠ m.id := fun h => hav (hv ▸ cat.eq_of_id_eq hf hm h ▸ hfv.symm)
        simp [renamePair, h1, h2]
      rw [hother a ha rfl] at hqa
      rw [hother b hb hvv.symm] at hqb
      exact hab hvv q hqa hqb
  versions_unique := by
    refine cat.versions_unique.sublist (Catalog.versionKeys_sublist (fun f => ?_) cat.files)
    rw [VaultFile.versionKeys, renamePair_versions, renamePair_vaultId]
    exact List.Sublist.refl _
  jobIds_nodup := cat.jobIds_nodup

lemma loadRenameCandidate_spec {cat : Catalog} {v : VaultId} {id : FileId} {newPath : Path}
    {m p : VaultFile} {digest : Digest}
    (h : loadRenameCandidate cat v id newPath = some (m, p, digest)) :
    m ∈ cat.files ∧ p ∈ cat.files ∧ m.id = id ∧ m.vaultId = v ∧ p.vaultId = v ∧
      p.currentPath = some newPath := by
  simp only [loadRenameCandidate, Option.bind_eq_bind, Option.bind_eq_some_iff,
    Option.some.injEq, Prod.mk.injEq] at h
  obtain ⟨m', hm, p', hp, digest', -, _, hguard, rfl, rfl, rfl⟩ := h
  obtain ⟨hmem, hid⟩ := Catalog.mem_of_file? hm
  obtain ⟨hpmem, hpv, hpath⟩ := Catalog.mem_of_fileAt? hp
  refine ⟨hmem, hpmem, hid, ?_, hpv, hpath⟩
  by_contra hv
  simp [guard, isRenameRow, hv] at hguard

/-- `confirm_file_rename`.  Each of its conditional updates compares the rows with the snapshot
taken at the start of the same transaction, so one after the other finds its row. -/
def confirmFileRename (vaults : VaultTable) (cat : Catalog) (v : VaultId) (id : FileId)
    (newPath : Path) (changedAt : Stamp) : Option Catalog :=
  if (vaults v).any fun vault => vault.decommissionState = .active then
    match h : loadRenameCandidate cat v id newPath with
    | none => none
    | some (m, p, digest) =>
        if (renameCandidate cat v digest).any fun c =>
            c.1.id = id && c.2.currentPath = some newPath then
          have hs := loadRenameCandidate_spec h
          some (cat.renameFiles m p newPath changedAt hs.2.1
            (hs.2.2.2.2.1.trans hs.2.2.2.1.symm) hs.1 hs.2.2.2.2.2)
        else none
  else none

/-! ### Marks -/

/-- The transaction an operation runs in: its identity, and the clock when it marks a
directory. -/
structure Session where
  tx : TxId
  markedAt : Path → Stamp

/-- `_persist_dirty_directory`. -/
def persistDirtyDirectory (ses : Session) (v : VaultId) (db : Db) (d : Path) : Db :=
  Write.apply db (.insertMark ⟨v, d, ses.tx, ses.markedAt d⟩)

/-- Mark a list of directories, one after the other. -/
def persistDirtyDirectories (ses : Session) (v : VaultId) (db : Db) (ds : List Path) : Db :=
  ds.foldl (persistDirtyDirectory ses v) db

/-- `mark_path_dirty`: every ancestor directory of the path. -/
def markPathDirty (ses : Session) (v : VaultId) (db : Db) (p : Path) : Db :=
  persistDirtyDirectories ses v db (ancestorDirectories p)

/-- `mark_directory_dirty`: the directory and its ancestors. -/
def markDirectoryDirty (ses : Session) (v : VaultId) (db : Db) (d : Path) : Db :=
  let normalized := normalize d
  if normalized = [] then db
  else persistDirtyDirectories ses v db
    (normalized :: ancestorDirectories (normalized ++ ['/', '_']))

/-- `mark_file_id_dirty`: the ancestors of the current path of a file of the Vault. -/
def markFileIdDirty (ses : Session) (v : VaultId) (db : Db) (id : FileId) : Db :=
  match (db.catalog.file? id).bind fun f => if f.vaultId = v then f.currentPath else none with
  | some p => markPathDirty ses v db p
  | none => db

/-- `mark_paths_dirty`: each ancestor of the paths once, in order. -/
def markPathsDirty (ses : Session) (v : VaultId) (db : Db) (paths : List Path) : Db :=
  persistDirtyDirectories ses v db
    ((paths.flatMap ancestorDirectories).dedup.insertionSort (· ≤ ·))

/-- `request_vault_rebuild`. -/
def requestVaultRebuild (v : VaultId) (db : Db) : Db := Write.apply db (.setStatus v .rebuildRequired)

/-! ### Operations with their marks -/

/-- The operations that record observations. -/
inductive LocalOp
  | observe (v : VaultId) (e : LocalEntry) (seenAt recoveredAt : Option Stamp)
  | observeBatch (v : VaultId) (entries : List LocalEntry) (seenAt : Option Stamp)
  | copyMissing (id : FileId) (observedAt : Stamp)
  | copyReplaced (id : FileId) (t : FileType) (size : Option ℕ) (mtimeNs : Option ℤ)
      (observedAt : Stamp)
  | pathMissing (v : VaultId) (p : Path) (observedAt : Stamp)
  | unseenMissing (v : VaultId) (seenAt observedAt : Stamp) (scanStartedAt : Option Stamp)
  | fingerprint (v : VaultId) (p : Path) (digest : Digest) (matched : Option RowId)
  | rename (v : VaultId) (id : FileId) (newPath : Path) (changedAt : Stamp)

/-- `_mark_file_aggregates_dirty(int(owned["vault_id"]), vault_file_id)`, when the file
exists. -/
def markOwned (ses : Session) (db : Db) (id : FileId) : Db :=
  match db.catalog.file? id with
  | some f => markFileIdDirty ses f.vaultId db id
  | none => db

/-- An operation in its transaction. -/
def LocalOp.run (vaults : VaultTable) (ses : Session) (db : Db) : LocalOp → Option Db
  | .observe v e seenAt recoveredAt =>
      (observeLocalCopy vaults db.catalog v e seenAt recoveredAt).map fun cat =>
        markPathDirty ses v { db with catalog := cat } e.path
  | .observeBatch v entries seenAt =>
      (observeLocalCopiesBatch vaults db.catalog v entries seenAt).map fun cat =>
        markPathsDirty ses v { db with catalog := cat }
          ((lastByPath entries).map LocalEntry.path)
  | .copyMissing id observedAt =>
      some (markOwned ses { db with catalog := markLocalCopyMissing db.catalog id observedAt } id)
  | .copyReplaced id t size mtimeNs observedAt =>
      some (markOwned ses
        { db with
          catalog := observeReplacedLocalCopy db.catalog id t size mtimeNs observedAt } id)
  | .pathMissing v p observedAt =>
      some (markDirectoryDirty ses v (markPathDirty ses v
        { db with catalog := markLocalPathMissing db.catalog v p observedAt } p) p)
  | .unseenMissing v seenAt observedAt scanStartedAt =>
      some (requestVaultRebuild v
        { db with catalog :=
            markUnseenLocalCopiesMissing db.catalog v seenAt observedAt scanStartedAt })
  | .fingerprint v p digest matched =>
      some (markPathDirty ses v
        { db with catalog := setLocalFingerprint db.catalog v p digest matched } p)
  | .rename v id newPath changedAt =>
      (confirmFileRename vaults db.catalog v id newPath changedAt).map fun cat =>
        -- the paths of the snapshot: the old one, and the provisional one, which is the new one
        markPathsDirty ses v { db with catalog := cat }
          ((((db.catalog.file? id).bind VaultFile.currentPath).toList) ++ [newPath, newPath])

end Frostvault
