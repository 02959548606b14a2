import Frostvault.Aggregates.DirtyMarks
import Frostvault.CloudScan.CloudMarks
import Frostvault.Observation.RestoreGhosts
import Frostvault.Observation.ScanJournal

/-!
The status of the file that holds an observed path.

Looking a path up asks for the current path only.  A confirmed rename and the retirement of a
residue close the path of the file they retire.  The end of a delayed deletion marks its file
purged and leaves the path open, so the content that is put back at the path is recorded for the
purged file, which no list, count or automatic upload considers.

* `KeepsHolders`: what holds a path after a step is active or held it before, as it was;
* `holder_after_observation`: the owner of an observed path, by the owner before;
* `present_file_active_iff`: **a recorded file has an active identity exactly when no deletion
  was finished at its path**.
-/

namespace Frostvault

open Runs List

/-! ### Steps -/

/-- The transactions that create, move, retire or observe Vault Files, and the rest: `elsewhere`
is what the others do to other columns and tables. -/
inductive IdentityAct
  | observed (vaults : VaultTable) (ses : Session) (op : LocalOp)
  | scanFailed (v : VaultId) (scanId : Stamp) (journal : Journal)
  | retireGhosts (ses : Session) (v : VaultId) (updatedAt : JobId → Stamp)
      (absent : Path → Bool) (at_ : Stamp)
  | cloud (ses : Session) (op : CloudOp)
  | marker (v : VaultId) (m : ListedMarker) (observedAt : Stamp)
  | deletion (act : PurgeAct)
  | elsewhere (others : Catalog)

/-- The columns of a file that say what it is and where. -/
structure Identity where
  id : FileId
  vaultId : VaultId
  status : FileStatus
  currentPath : Option Path
  pathSince : Stamp
  pathHistory : List PathRow
deriving DecidableEq

/-- The identity of a file. -/
def VaultFile.identity (f : VaultFile) : Identity :=
  ⟨f.id, f.vaultId, f.status, f.currentPath, f.pathSince, f.pathHistory⟩

/-- One transaction; `none` when it raises. -/
def identityStep (db : Db) : IdentityAct → Option Db
  | .observed vaults ses op => op.run vaults ses db
  | .scanFailed v scanId journal =>
      some { db with catalog := rollbackLocalScanJournal v scanId db.catalog journal }
  | .retireGhosts ses v updatedAt absent at_ =>
      some (retireAbsentRestoreGhosts ses db v updatedAt absent at_)
  | .cloud ses op => op.run ses db
  | .marker v m observedAt =>
      some { db with catalog := recordDeleteMarker db.catalog v m observedAt }
  | .deletion act => (purgeStep db.catalog act).map fun cat => { db with catalog := cat }
  | .elsewhere others => do
      guard (others.files.map VaultFile.identity = db.catalog.files.map VaultFile.identity)
      some { db with catalog := others }

/-- The transaction records a regular file at the path. -/
def IdentityAct.Records (v : VaultId) (p : Path) : IdentityAct → Prop
  | .observed _ _ (.observe u e _ _) => u = v ∧ e.path = p ∧ e.fileType = .regular
  | .observed _ _ (.observeBatch u entries _) =>
      u = v ∧ ∃ e ∈ lastByPath entries, e.path = p ∧ e.fileType = .regular
  | _ => False

/-- The transaction finishes a deletion with nothing left in the cloud, and purges the file. -/
def IdentityAct.Purges (db : Db) (id : FileId) : IdentityAct → Prop
  | .cloud _ (.finalize job) => ∃ j ∈ db.catalog.jobs, j.id = job ∧ j.vaultFileId = id ∧
      j.action = .cloudPurge ∧ purgesFile db.catalog job id = true
  | .deletion (.finalize job file) => file = id ∧ (∃ j ∈ db.catalog.jobs, j.id = job) ∧
      purgesFile db.catalog job id = true
  | _ => False

/-! ### What a step does to the holders of paths -/

/-- What holds a path is active, or held it before and is what it was. -/
def KeepsHolders (cat cat' : Catalog) : Prop :=
  ∀ f' ∈ cat'.files, ∀ p, f'.currentPath = some p → f'.status = .active ∨
    ∃ f ∈ cat.files, f.id = f'.id ∧ f.vaultId = f'.vaultId ∧ f.currentPath = some p ∧
      f.status = f'.status

variable {cat cat' cat'' : Catalog} {v : VaultId} {p : Path}

lemma KeepsHolders.trans (h : KeepsHolders cat cat') (h' : KeepsHolders cat' cat'') :
    KeepsHolders cat cat'' := by
  intro f'' hf'' p hp
  rcases h' f'' hf'' p hp with hs | ⟨f', hf', hid, hv, hp', hs⟩
  · exact Or.inl hs
  · rcases h f' hf' p hp' with hs' | ⟨f, hf, hid', hv', hp'', hs'⟩
    · exact Or.inl (hs ▸ hs')
    · exact Or.inr ⟨f, hf, hid'.trans hid, hv'.trans hv, hp'', hs'.trans hs⟩

lemma KeepsHolders.of_identity
    (h : ∀ f' ∈ cat'.files, ∃ f ∈ cat.files, f.identity = f'.identity) : KeepsHolders cat cat' := by
  intro f' hf' p hp
  obtain ⟨f, hf, heq⟩ := h f' hf'
  simp only [VaultFile.identity, Identity.mk.injEq] at heq
  obtain ⟨hid, hv, hs, hpath, -, -⟩ := heq
  exact Or.inr ⟨f, hf, hid, hv, hpath.trans hp, hs⟩

lemma KeepsHolders.of_map {g : VaultFile → VaultFile} (hfiles : cat'.files = cat.files.map g)
    (hg : ∀ f, (g f).identity = f.identity) : KeepsHolders cat cat' := by
  refine KeepsHolders.of_identity fun f' hf' => ?_
  rw [hfiles] at hf'
  obtain ⟨f, hf, rfl⟩ := mem_map.mp hf'
  exact ⟨f, hf, (hg f).symm⟩

lemma KeepsHolders.of_versions {g : VaultFile → List ArchiveVersion}
    (hfiles : cat'.files = cat.files.map fun f => f.withVersions (g f)) : KeepsHolders cat cat' :=
  KeepsHolders.of_map hfiles fun _ => rfl

lemma KeepsHolders.of_files (hfiles : cat'.files = cat.files) : KeepsHolders cat cat' :=
  KeepsHolders.of_identity fun f' hf' => ⟨f', hfiles ▸ hf', rfl⟩

lemma KeepsHolders.of_added (h : ∀ f ∈ cat'.files, f ∈ cat.files ∨ f.status = .active) :
    KeepsHolders cat cat' := by
  intro f hf p hp
  rcases h f hf with hold | hs
  · exact Or.inr ⟨f, hold, rfl, rfl, hp, rfl⟩
  · exact Or.inl hs

/-! ### Resolved paths -/

/-- A looked up path belongs to a file that was there, or to a new one that is active. -/
lemma getOrCreateFile_added (at_ : Stamp) :
    (∀ f ∈ cat.files, f ∈ (getOrCreateFile cat v p at_).1.files) ∧
    ∀ f ∈ (getOrCreateFile cat v p at_).1.files, f ∈ cat.files ∨ f.status = .active := by
  unfold getOrCreateFile
  split
  · exact ⟨fun _ h => h, fun _ h => Or.inl h⟩
  · refine ⟨fun f hf => mem_append_left _ hf, fun f hf => ?_⟩
    rcases mem_append.mp hf with hf | hf
    · exact Or.inl hf
    · rw [mem_singleton.mp hf]
      exact Or.inr rfl

lemma resolveOrCreateFiles_added (paths : List Path) (at_ : Stamp) :
    (∀ f ∈ cat.files, f ∈ (resolveOrCreateFiles cat v paths at_).1.files) ∧
    ∀ f ∈ (resolveOrCreateFiles cat v paths at_).1.files, f ∈ cat.files ∨ f.status = .active := by
  have hfold : ∀ (ps : List Path) (acc : Catalog × List (Path × FileId)),
      (∀ f ∈ acc.1.files, f ∈ (ps.foldl (resolvePath v at_) acc).1.files) ∧
      ∀ f ∈ (ps.foldl (resolvePath v at_) acc).1.files, f ∈ acc.1.files ∨ f.status = .active := by
    intro ps
    induction ps with
    | nil => exact fun acc => ⟨fun _ h => h, fun _ h => Or.inl h⟩
    | cons q ps ih =>
        intro acc
        obtain ⟨hsub, hnew⟩ := @getOrCreateFile_added acc.1 v q at_
        obtain ⟨hsub', hnew'⟩ := ih (resolvePath v at_ acc q)
        refine ⟨fun f hf => hsub' f (hsub f hf), fun f hf => ?_⟩
        rcases hnew' f hf with hf | hs
        · exact hnew f hf
        · exact Or.inr hs
  exact hfold paths.dedup (cat, [])

lemma resolveCloudPathFile_added (at_ : Stamp) :
    ∀ f ∈ (resolveCloudPathFile cat v p at_).1.files, f ∈ cat.files ∨ f.status = .active := by
  rw [resolveCloudPathFile]
  split
  · exact fun _ h => Or.inl h
  · exact (getOrCreateFile_added at_).2

/-- **The owner of an observed path** is active exactly when the path was free or its owner was
active. -/
lemma holder_after_observation {ext : Catalog} {c : VaultFile → Option LocalCopy} {id : FileId}
    (hsub : ∀ f ∈ cat.files, f ∈ ext.files)
    (hnew : ∀ f ∈ ext.files, f ∈ cat.files ∨ f.status = .active)
    (hfiles : cat'.files = ext.files.map fun f => f.withCopy (c f)) (hres : Resolved ext v p id) :
    (∃ f, cat'.fileAt? v p = some f ∧ f.status = .active) ↔
      ∀ f, cat.fileAt? v p = some f → f.status = .active := by
  obtain ⟨g, hg, -, hv, hp⟩ := hres
  have hafter : cat'.fileAt? v p = some (g.withCopy (c g)) := by
    refine Catalog.fileAt?_eq_some_iff.mpr ⟨?_, hv, hp⟩
    rw [hfiles]
    exact mem_map_of_mem hg
  constructor
  · rintro ⟨f', hf', hs⟩ f hf
    obtain ⟨hmem, hfv, hfp⟩ := Catalog.mem_of_fileAt? hf
    cases hafter.symm.trans hf'
    rw [ext.eq_of_path_eq (hsub f hmem) hg (hfv.trans hv.symm) hfp hp]
    exact hs
  · intro hall
    refine ⟨_, hafter, ?_⟩
    rcases hnew g hg with hold | hs
    · exact hall g (Catalog.fileAt?_eq_some_iff.mpr ⟨hold, hv, hp⟩)
    · exact hs

/-! ### Observations -/

variable {vaults : VaultTable} {ses : Session} {db db' : Db}

lemma observeLocalCopy_holders {e : LocalEntry} {seenAt recoveredAt : Option Stamp}
    (h : observeLocalCopy vaults cat v e seenAt recoveredAt = some cat') :
    KeepsHolders cat cat' ∧ ((∃ f, cat'.fileAt? v e.path = some f ∧ f.status = .active) ↔
      ∀ f, cat.fileAt? v e.path = some f → f.status = .active) := by
  obtain ⟨hsub, hnew⟩ := @getOrCreateFile_added cat v e.path e.observedAt
  obtain ⟨-, -, hres⟩ := getOrCreateFile_spec cat v e.path e.observedAt
  have hfiles := (cancelReappearedDeletions_spec h).1
  exact ⟨(KeepsHolders.of_added hnew).trans (KeepsHolders.of_map hfiles fun _ => rfl),
    holder_after_observation hsub hnew hfiles hres⟩

/-- So does a batch, for every path in it. -/
lemma observeLocalCopiesBatch_holders {entries : List LocalEntry} {seenAt : Option Stamp}
    (h : observeLocalCopiesBatch vaults cat v entries seenAt = some cat') :
    KeepsHolders cat cat' ∧ ∀ e ∈ lastByPath entries,
      ((∃ f, cat'.fileAt? v e.path = some f ∧ f.status = .active) ↔
        ∀ f, cat.fileAt? v e.path = some f → f.status = .active) := by
  unfold observeLocalCopiesBatch at h
  split at h
  · rename_i hes
    cases h
    exact ⟨KeepsHolders.of_files rfl, fun e he => absurd (hes ▸ he) not_mem_nil⟩
  · rename_i e es hes
    obtain ⟨hsub, hnew⟩ := @resolveOrCreateFiles_added cat v ((e :: es).map LocalEntry.path)
      e.observedAt
    obtain ⟨-, -, hres, hids⟩ :=
      resolveOrCreateFiles_spec cat v ((e :: es).map LocalEntry.path) e.observedAt
    have hfiles := (cancelReappearedDeletions_spec h).1
    refine ⟨(KeepsHolders.of_added hnew).trans (KeepsHolders.of_map hfiles fun _ => rfl), ?_⟩
    intro o ho
    have hin : o.path ∈ (resolveOrCreateFiles cat v ((e :: es).map LocalEntry.path)
        e.observedAt).2.map Prod.fst := by
      rw [hids, mem_dedup, ← hes]
      exact mem_map_of_mem ho
    obtain ⟨pid, hpid, hpath⟩ := mem_map.mp hin
    exact holder_after_observation hsub hnew hfiles (hpath ▸ hres pid hpid)

/-! ### Renames, residues and failed scans -/

lemma loadRenameCandidate_active {id : FileId} {m q : VaultFile} {digest : Digest}
    (h : loadRenameCandidate cat v id p = some (m, q, digest)) : m.status = .active := by
  simp only [loadRenameCandidate, Option.bind_eq_bind, Option.bind_eq_some_iff,
    Option.some.injEq, Prod.mk.injEq] at h
  obtain ⟨m', -, q', -, digest', -, _, hguard, rfl, rfl, rfl⟩ := h
  by_contra hs
  simp [guard, isRenameRow, hs] at hguard

/-- A confirmed rename closes the path of the file it retires. -/
lemma keepsHolders_confirmFileRename {id : FileId} {at_ : Stamp}
    (h : confirmFileRename vaults cat v id p at_ = some cat') : KeepsHolders cat cat' := by
  unfold confirmFileRename at h
  split at h
  · split at h
    · cases h
    · rename_i m q digest hload
      split at h
      · cases h
        have hm := (loadRenameCandidate_spec hload).1
        intro f' hf' r hr
        obtain ⟨f, hf, rfl⟩ := mem_map.mp hf'
        unfold renamePair at hr ⊢
        split at hr
        · simp [VaultFile.retire, VaultFile.closePath] at hr
        · rename_i hq
          rw [if_neg hq]
          split at hr
          · rename_i hid
            rw [if_pos hid, cat.eq_of_id_eq hf hm hid]
            have hs : m.status = .active := loadRenameCandidate_active hload
            exact Or.inl hs
          · rename_i hid
            rw [if_neg hid]
            exact Or.inr ⟨f, hf, rfl, rfl, hr, rfl⟩
      · cases h
  · cases h

lemma keepsHolders_localOp {op : LocalOp} (h : op.run vaults ses db = some db') :
    KeepsHolders db.catalog db'.catalog := by
  cases op with
  | observe v e seenAt recoveredAt =>
      obtain ⟨cat', hcat, rfl⟩ := Option.map_eq_some_iff.mp h
      rw [markPathDirty, persist_catalog]
      exact (observeLocalCopy_holders hcat).1
  | observeBatch v entries seenAt =>
      obtain ⟨cat', hcat, rfl⟩ := Option.map_eq_some_iff.mp h
      rw [markPathsDirty, persist_catalog]
      exact (observeLocalCopiesBatch_holders hcat).1
  | copyMissing id at_ =>
      cases h
      rw [markOwned_catalog]
      exact KeepsHolders.of_map rfl fun _ => rfl
  | copyReplaced id t size mtimeNs at_ =>
      cases h
      rw [markOwned_catalog]
      exact KeepsHolders.of_map rfl fun _ => rfl
  | pathMissing v p at_ =>
      cases h
      rw [markDirectoryDirty_catalog, markPathDirty, persist_catalog]
      exact KeepsHolders.of_map rfl fun _ => rfl
  | unseenMissing v seenAt observedAt scanStartedAt =>
      cases h
      exact KeepsHolders.of_map rfl fun _ => rfl
  | fingerprint v p digest matched =>
      cases h
      rw [markPathDirty, persist_catalog]
      exact KeepsHolders.of_map rfl fun _ => rfl
  | rename v id newPath at_ =>
      obtain ⟨cat', hcat, rfl⟩ := Option.map_eq_some_iff.mp h
      rw [markPathsDirty, persist_catalog]
      exact keepsHolders_confirmFileRename hcat

/-- The compensation of a failed scan removes files and rewrites Local Copies. -/
lemma keepsHolders_rollback (v : VaultId) (scanId : Stamp) (journal : Journal) :
    KeepsHolders cat (rollbackLocalScanJournal v scanId cat journal) := by
  have hentry : ∀ (c c' : Catalog) (e : Path × Option JournalRow),
      undoEntry v scanId c e = some c' → KeepsHolders c c' := by
    intro c c' e h
    unfold undoEntry at h
    split at h
    · split at h
      · cases h
        exact KeepsHolders.of_files rfl
      · split at h
        · split at h
          · cases h
            exact KeepsHolders.of_identity fun f hf => ⟨f, (mem_filter.mp hf).1, rfl⟩
          · cases h
        · cases h
          exact KeepsHolders.of_files rfl
    · cases h
      exact KeepsHolders.of_map rfl fun _ => rfl
  have hfold : ∀ (js : Journal) (c c' : Catalog), js.foldlM (undoEntry v scanId) c = some c' →
      KeepsHolders c c' := by
    intro js
    induction js with
    | nil =>
        intro c c' h
        cases h
        exact KeepsHolders.of_files rfl
    | cons e js ih =>
        intro c c' h
        rw [foldlM_cons, Option.bind_eq_bind, Option.bind_eq_some_iff] at h
        obtain ⟨c₁, hc₁, hrest⟩ := h
        exact (hentry c c₁ e hc₁).trans (ih c₁ c' hrest)
  rw [rollbackLocalScanJournal]
  cases hj : journal.foldlM (undoEntry v scanId) cat with
  | none => exact KeepsHolders.of_files rfl
  | some c => exact hfold journal cat c hj

/-- The retirement of residues closes their paths. -/
lemma keepsHolders_retireGhosts (v : VaultId) (updatedAt : JobId → Stamp) (absent : Path → Bool)
    (at_ : Stamp) :
    KeepsHolders db.catalog (retireAbsentRestoreGhosts ses db v updatedAt absent at_).catalog := by
  have hmarks : ∀ (ps : List Path) (b : Db),
      (ps.foldl (markPathDirty ses v) b).catalog = b.catalog := by
    intro ps
    induction ps with
    | nil => exact fun _ => rfl
    | cons q ps ih =>
        intro b
        rw [foldl_cons, ih, markPathDirty, persist_catalog]
  rw [retireAbsentRestoreGhosts, hmarks]
  intro f hf p hp
  exact Or.inr ⟨f, retireFiles_currentPath hf hp, rfl, rfl, hp, rfl⟩

/-! ### Cloud operations -/

/-- What holds a path is as `KeepsHolders` says, or its deletion was finished by the step. -/
def HoldersAfter (db : Db) (a : IdentityAct) (cat' : Catalog) : Prop :=
  ∀ f' ∈ cat'.files, ∀ p, f'.currentPath = some p → f'.status = .active ∨
    (∃ f ∈ db.catalog.files, f.id = f'.id ∧ f.vaultId = f'.vaultId ∧ f.currentPath = some p ∧
      f.status = f'.status) ∨
    f'.status = .purged ∧ a.Purges db f'.id ∧
      ∃ f ∈ db.catalog.files, f.id = f'.id ∧ f.currentPath = some p

variable {a : IdentityAct}

lemma KeepsHolders.after (h : KeepsHolders db.catalog cat') :
    HoldersAfter db a cat' :=
  fun f' hf' p hp => (h f' hf' p hp).imp_right Or.inl

/-- The end of a deletion purges the file in place. -/
lemma holdersAfter_finalize {job : JobId} {file : FileId}
    (h : finalizePurgeJob db.catalog job file = some cat')
    (ha : purgesFile db.catalog job file → a.Purges db file) : HoldersAfter db a cat' := by
  obtain ⟨hfiles, -⟩ := finalizePurgeJob_spec h
  cases hpurge : purgesFile db.catalog job file with
  | false =>
      rw [hpurge] at hfiles
      exact (KeepsHolders.of_files hfiles).after
  | true =>
      rw [hpurge, if_pos rfl] at hfiles
      intro f' hf' p hp
      rw [hfiles] at hf'
      obtain ⟨f, hf, rfl⟩ := mem_map.mp hf'
      split at hp
      · rename_i hid
        rw [if_pos hid]
        exact Or.inr (Or.inr ⟨rfl, hid ▸ ha hpurge, f, hf, rfl, hp⟩)
      · rename_i hid
        rw [if_neg hid]
        exact Or.inr (Or.inl ⟨f, hf, rfl, rfl, hp, rfl⟩)

lemma finalizeWithMarks_catalog {j : Job} (h : finalizeWithMarks ses db j = some db') :
    finalizePurgeJob db.catalog j.id j.vaultFileId = some db'.catalog := by
  obtain ⟨cat', hcat, rfl⟩ := Option.map_eq_some_iff.mp h
  rw [hcat]
  split
  · rw [markFileIdDirty_catalog]
  · rfl

/-- A recorded version belongs to a file that was there, or to a new one. -/
lemma keepsHolders_recordVersion {o : VersionObservation} {row : RowId}
    (h : recordVersion cat v o = some (cat', row)) : KeepsHolders cat cat' := by
  rcases recordVersion_cases h with ⟨-, -, -, -, -, -, hg, rfl⟩ | ⟨hnew, rfl⟩
  · exact KeepsHolders.of_versions rfl
  · have howner : KeepsHolders cat (recordOwner cat v o).1 := by
      unfold recordOwner
      split
      · exact KeepsHolders.of_files rfl
      · exact KeepsHolders.of_added (resolveCloudPathFile_added _)
    exact howner.trans (KeepsHolders.of_versions rfl)

/-- The operations on Archive Versions. -/
lemma holdersAfter_cloudOp {op : CloudOp} (h : op.run ses db = some db') :
    HoldersAfter db (.cloud ses op) db'.catalog := by
  cases op with
  | record v o =>
      obtain ⟨⟨cat', row⟩, hrec, rfl⟩ := Option.map_eq_some_iff.mp h
      rw [markPathDirty, persist_catalog]
      exact (keepsHolders_recordVersion hrec).after
  | verified row digest =>
      cases h
      rw [markVersionOwners_catalog]
      exact (KeepsHolders.of_versions rfl).after
  | mismatch row digest =>
      cases h
      rw [markVersionOwners_catalog]
      exact (KeepsHolders.of_versions rfl).after
  | superseded kept scanId startedAt =>
      cases h
      rw [markVersionOwners_catalog]
      unfold markUnlistedSnapshotVersionsSuperseded
      split
      · exact (KeepsHolders.of_files rfl).after
      · exact (KeepsHolders.of_versions rfl).after
  | purged rows checkedAt =>
      cases h
      rw [markVersionOwners_catalog]
      exact (KeepsHolders.of_versions rfl).after
  | restoreState row state storageClass =>
      cases h
      rw [markVersionOwners_catalog]
      exact (KeepsHolders.of_versions rfl).after
  | placement row p =>
      obtain ⟨cat', hcat, rfl⟩ := Option.map_eq_some_iff.mp h
      rw [markVersionOwners_catalog]
      rw [updateVersionStoragePlacement] at hcat
      split at hcat
      · cases hcat
        exact (KeepsHolders.of_versions rfl).after
      · cases hcat
  | unseenMissing v scanId startedAt =>
      cases h
      exact (KeepsHolders.of_versions rfl).after
  | itemsDeleted ids at_ =>
      cases h
      rw [markItemOwners_catalog]
      exact (KeepsHolders.of_versions rfl).after
  | finalize job =>
      obtain ⟨j, hj, hdone⟩ := Option.bind_eq_some_iff.mp h
      have hfound := find?_some hj
      simp only [Bool.and_eq_true, decide_eq_true_eq] at hfound
      refine holdersAfter_finalize (finalizeWithMarks_catalog hdone) fun hpurge => ?_
      exact ⟨j, mem_of_find?_eq_some hj, hfound.1, rfl, hfound.2, hfound.1 ▸ hpurge⟩

/-! ### Deletions -/

lemma reconcileJobTransitions_files (cat : Catalog) (rows : List Job) (st : JobStatus)
    (now : Stamp) : (reconcileJobTransitions cat rows st now).files = cat.files := by
  rw [reconcileJobTransitions]
  generalize rows.map Job.id = ids
  induction ids generalizing cat with
  | nil => rfl
  | cons a ids ih =>
      rw [foldl_cons, ih]
      rfl

/-- The transactions of a delayed deletion. -/
lemma holdersAfter_purgeStep {act : PurgeAct} (h : purgeStep db.catalog act = some cat') :
    HoldersAfter db (.deletion act) cat' := by
  cases act with
  | schedule vaults v sel at_ confirmation reason origin =>
      obtain ⟨files, rfl⟩ := scheduleCloudPurge_spec h
      have hfold : ∀ (fs : List VaultFile) (c : Catalog) (g : GroupId),
          (fs.foldl (schedulePurgeOf v origin g at_) c).files = c.files := by
        intro fs
        induction fs with
        | nil => exact fun _ _ => rfl
        | cons f fs ih =>
            intro c g
            rw [foldl_cons, ih]
            rfl
      exact (KeepsHolders.of_files (hfold _ _ _)).after
  | cancel vaults v g =>
      rw [cancelCloudDeletion_eq h]
      exact (KeepsHolders.of_files (cancelRows_files _ _)).after
  | claim lead token now expires =>
      simp only [purgeStep, claimPurgeGroup, Option.bind_eq_bind, Option.bind_eq_some_iff,
        Option.some.injEq] at h
      obtain ⟨job, -, gid, -, -, -, rfl⟩ := h
      exact (KeepsHolders.of_files rfl).after
  | validate vaults v g at_ =>
      obtain ⟨⟨c, ok⟩, hval, rfl⟩ := Option.map_eq_some_iff.mp h
      simp only [validateExecution, Option.bind_eq_bind, Option.bind_eq_some_iff] at hval
      obtain ⟨vault, -, hval⟩ := hval
      split at hval
      · cases hval
        exact (KeepsHolders.of_files rfl).after
      · cases hval
        exact (KeepsHolders.of_files (cancelRows_files _ _)).after
  | markDeleted ids at_ =>
      cases h
      exact (KeepsHolders.of_versions rfl).after
  | markFailed ids =>
      cases h
      exact (KeepsHolders.of_files rfl).after
  | finalize job file =>
      refine holdersAfter_finalize h fun hpurge => ⟨rfl, ?_, hpurge⟩
      exact (rewrites_finalizePurgeJob h).1
  | reconcile listing lead now =>
      obtain ⟨j, -, -, ⟨-, rfl⟩ | ⟨gid, -, ⟨-, rfl | ⟨ids, rfl⟩⟩ | ⟨-, rfl⟩⟩⟩ :=
        reconcileInterruptedPurge_spec h
      · exact (KeepsHolders.of_files rfl).after
      · exact (KeepsHolders.of_files rfl).after
      · have hdeleted : KeepsHolders db.catalog (markItemsDeleted db.catalog ids now) :=
          KeepsHolders.of_versions rfl
        exact (hdeleted.trans (KeepsHolders.of_files (reconcileJobTransitions_files _ _ _ _))).after
      · exact (KeepsHolders.of_files (reconcileJobTransitions_files _ _ _ _)).after

/-! ### One step -/

section

variable (h : identityStep db a = some db')

include h

/-- **One step.**  What holds a path is active, or as it was, or purged by the step. -/
lemma holdersAfter_step :
    HoldersAfter db a db'.catalog := by
  cases a with
  | observed vaults ses op => exact (keepsHolders_localOp h).after
  | scanFailed v scanId journal =>
      cases h
      exact (keepsHolders_rollback v scanId journal).after
  | retireGhosts ses v updatedAt absent at_ =>
      cases h
      exact (keepsHolders_retireGhosts v updatedAt absent at_).after
  | cloud ses op => exact holdersAfter_cloudOp h
  | marker v m observedAt =>
      cases h
      have hmarked : KeepsHolders (resolveCloudPathFile db.catalog v m.path observedAt).1
          (recordDeleteMarker db.catalog v m observedAt) := by
        refine KeepsHolders.of_identity fun f' hf' => ?_
        obtain ⟨f, hf, rfl⟩ := mem_map.mp hf'
        exact ⟨f, hf, rfl⟩
      exact ((KeepsHolders.of_added (resolveCloudPathFile_added _)).trans hmarked).after
  | deletion act =>
      obtain ⟨cat', hcat, rfl⟩ := Option.map_eq_some_iff.mp h
      exact holdersAfter_purgeStep hcat
  | elsewhere others =>
      simp only [identityStep, Option.bind_eq_bind, guard_bind_eq_some,
        Option.some.injEq] at h
      obtain ⟨hsame, rfl⟩ := h
      refine (KeepsHolders.of_identity fun f' hf' => ?_).after
      have hmem : f'.identity ∈ db.catalog.files.map VaultFile.identity := by
        rw [← hsame]
        exact mem_map_of_mem hf'
      obtain ⟨f, hf, heq⟩ := mem_map.mp hmem
      exact ⟨f, hf, heq⟩

/-- A finished deletion leaves the file purged where it was. -/
lemma purged_of_purges {f : VaultFile} (hf : f ∈ db.catalog.files) (ha : a.Purges db f.id) :
    { f with status := .purged } ∈ db'.catalog.files := by
  have hfinal : ∀ {job : JobId} {c : Catalog}, finalizePurgeJob db.catalog job f.id = some c →
      purgesFile db.catalog job f.id → { f with status := .purged } ∈ c.files := by
    intro job c hc hpurge
    obtain ⟨hfiles, -⟩ := finalizePurgeJob_spec hc
    rw [hpurge, if_pos rfl] at hfiles
    rw [hfiles]
    exact mem_map.mpr ⟨f, hf, if_pos rfl⟩
  cases a with
  | cloud ses op =>
      cases op with
      | finalize job =>
          obtain ⟨j, hj, rfl, hfile, hact, hpurge⟩ := ha
          obtain ⟨k, hk, hdone⟩ := Option.bind_eq_some_iff.mp h
          have hfound := find?_some hk
          simp only [Bool.and_eq_true, decide_eq_true_eq] at hfound
          obtain rfl := db.catalog.job_eq_of_id_eq (mem_of_find?_eq_some hk) hj hfound.1
          refine hfinal ?_ hpurge
          rw [← hfile]
          exact finalizeWithMarks_catalog hdone
      | _ => exact absurd ha id
  | deletion act =>
      cases act with
      | finalize job file =>
          obtain ⟨rfl, -, hpurge⟩ := ha
          obtain ⟨cat', hcat, rfl⟩ := Option.map_eq_some_iff.mp h
          exact hfinal hcat hpurge
      | _ => exact absurd ha id
  | _ => exact absurd ha id

/-- **A recorded path** has an active owner exactly when it was free or its owner was active. -/
lemma holder_of_records (ha : a.Records v p) :
    (∃ f, db'.catalog.fileAt? v p = some f ∧ f.status = .active) ↔
      ∀ f, db.catalog.fileAt? v p = some f → f.status = .active := by
  cases a with
  | observed vaults ses op =>
      cases op with
      | observe u e seenAt recoveredAt =>
          obtain ⟨rfl, rfl, -⟩ := ha
          obtain ⟨cat', hcat, rfl⟩ := Option.map_eq_some_iff.mp h
          rw [markPathDirty, persist_catalog]
          exact (observeLocalCopy_holders hcat).2
      | observeBatch u entries seenAt =>
          obtain ⟨rfl, e, he, rfl, -⟩ := ha
          obtain ⟨cat', hcat, rfl⟩ := Option.map_eq_some_iff.mp h
          rw [markPathsDirty, persist_catalog]
          exact (observeLocalCopiesBatch_holders hcat).2 e he
      | _ => exact absurd ha id
  | _ => exact absurd ha id

end

/-! ### Runs -/

/-- What holds a path is active or purged. -/
def Held (db : Db) : Prop :=
  ∀ f ∈ db.catalog.files, f.currentPath.isSome → f.status ≠ .retired

/-- What holds a path is active. -/
def HeldActive (db : Db) : Prop :=
  ∀ f ∈ db.catalog.files, f.currentPath.isSome → f.status = .active

lemma held_step (hI : Held db) (h : identityStep db a = some db') : Held db' := by
  intro f' hf' hp
  obtain ⟨p, hp⟩ := Option.isSome_iff_exists.mp hp
  rcases holdersAfter_step h f' hf' p hp with hs | ⟨f, hf, -, -, hfp, hs⟩ | ⟨hs, -⟩
  · simp [hs]
  · rw [← hs]
    exact hI f hf (by simp [hfp])
  · simp [hs]

/-- **One step** keeps every holder active exactly when it purges none. -/
lemma heldActive_step (hI : HeldActive db) (h : identityStep db a = some db') :
    HeldActive db' ↔ ∀ f ∈ db.catalog.files, a.Purges db f.id → f.currentPath = none := by
  constructor
  · intro hafter f hf ha
    have hmem := purged_of_purges h hf ha
    cases hp : f.currentPath with
    | none => rfl
    | some p => cases hafter _ hmem (by simp [hp])
  · intro hnone f' hf' hp
    obtain ⟨p, hp⟩ := Option.isSome_iff_exists.mp hp
    rcases holdersAfter_step h f' hf' p hp with hs | ⟨f, hf, -, -, hfp, hs⟩ | ⟨-, ha, f, hf, hid, hfp⟩
    · exact hs
    · rw [← hs]
      exact hI f hf (by simp [hfp])
    · rw [hnone f hf (hid ▸ ha)] at hfp
      cases hfp

/-- **A present file has an active identity, unless a deletion was finished at its path.**  In
every run from an empty installation: the owner of every recorded path is active after its
recording exactly when no recorded path is held by a purged file; and every file that holds a path
is active, in every state, exactly when no deletion is finished on a file that holds its path. -/
theorem present_file_active_iff (acts : List IdentityAct) (db : Db)
    (h : run identityStep emptyDb acts = some db) :
    ((∀ bs a cs u u', acts = bs ++ a :: cs → run identityStep emptyDb bs = some u →
        identityStep u a = some u' → ∀ v p, a.Records v p →
        ∃ f, u'.catalog.fileAt? v p = some f ∧ f.status = .active) ↔
      Along identityStep (fun u a => ∀ v p, a.Records v p → ∀ f,
        u.catalog.fileAt? v p = some f → f.status ≠ .purged) emptyDb acts) ∧
    ((∀ bs u, bs <+: acts → run identityStep emptyDb bs = some u →
        ∀ f ∈ u.catalog.files, f.currentPath.isSome → f.status = .active) ↔
      Along identityStep (fun u a => ∀ f ∈ u.catalog.files, a.Purges u f.id →
        f.currentPath = none) emptyDb acts) := by
  have hempty : ∀ f ∈ emptyDb.catalog.files, False := fun f hf => by
    simp [emptyDb, Catalog.empty] at hf
  refine ⟨?_, along_iff_invariant (I := HeldActive) (fun s a s' hI hs => heldActive_step hI hs)
    (fun f hf => (hempty f hf).elim) h⟩
  rw [along_iff_forall_step h]
  have hheld : ∀ bs u, run identityStep emptyDb bs = some u → Held u := fun bs u hu =>
    run_induction (fun s a s' => held_step) (fun f hf => (hempty f hf).elim) hu
  constructor
  · intro hall bs a cs u hsplit hu v p hrec f hf
    obtain ⟨u', hstep⟩ : ∃ u', identityStep u a = some u' := by
      rw [hsplit, run_append] at h
      obtain ⟨w, hw, hrest⟩ := h
      cases hu.symm.trans hw
      obtain ⟨u', hu', -⟩ := run_cons_eq_some.mp hrest
      exact ⟨u', hu'⟩
    have hafter := hall bs a cs u u' hsplit hu hstep v p hrec
    rw [(holder_of_records hstep hrec).mp hafter f hf]
    simp
  · intro hall bs a cs u u' hsplit hu hstep v p hrec
    refine (holder_of_records hstep hrec).mpr fun f hf => ?_
    obtain ⟨hmem, -, hfp⟩ := Catalog.mem_of_fileAt? hf
    have hretired := hheld bs u hu f hmem (by simp [hfp])
    have hpurged := hall bs a cs u hsplit hu v p hrec f hf
    cases hs : f.status with
    | active => rfl
    | retired => exact absurd hs hretired
    | purged => exact absurd hs hpurged

/-- The file at `a` is observed. -/
def observeA (size : ℕ) (at_ : Stamp) : IdentityAct :=
  .observed openVault ⟨1, fun _ => 0⟩ (.observe 0 ⟨['a'], .regular, some size, some 0, at_⟩ none none)

/-- A scan lists the version of the file at `a`. -/
def listedA : VersionObservation where
  path := ['a']
  objectKey := 7
  versionId := 9
  size := some 3
  storageClass := none
  etag := none
  uploadedAt := 2
  observedAt := 2
  scanId := 2
  origin := .discovered
  vaultFileId := none

/-- The file at `a` is archived and removed, and its deletion in the cloud is finished. -/
def deletedA : List IdentityAct :=
  [observeA 3 1,
    .cloud ⟨1, fun _ => 0⟩ (.record 0 listedA),
    .cloud ⟨1, fun _ => 0⟩ (.verified 1 4),
    .observed openVault ⟨1, fun _ => 0⟩ (.pathMissing 0 ['a'] 3),
    .deletion (.schedule openVault 0 ⟨[['a']], false, false⟩ 4 "photos" "r" .manual),
    .deletion (.claim 1 5 700000 700100),
    .cloud ⟨1, fun _ => 0⟩ (.itemsDeleted [1] 700000),
    .cloud ⟨1, fun _ => 0⟩ (.finalize 1)]

/-- The owner puts another file at `a`: it is recorded for the purged identity. -/
theorem put_back_file_stays_purged :
    ¬ ∀ (acts : List IdentityAct) (db : Db), run identityStep emptyDb acts = some db →
      ∀ bs a cs u u', acts = bs ++ a :: cs → run identityStep emptyDb bs = some u →
        identityStep u a = some u' → ∀ v p, a.Records v p →
        ∃ f, u'.catalog.fileAt? v p = some f ∧ f.status = .active := by
  intro hall
  have hstatus : ((run identityStep emptyDb deletedA).bind fun u =>
      identityStep u (observeA 5 700001)).map (fun u' =>
        (u'.catalog.fileAt? 0 ['a']).map VaultFile.status) = some (some .purged) := by
    decide
  obtain ⟨u', hu', hpurged⟩ := Option.map_eq_some_iff.mp hstatus
  obtain ⟨u, hu, hstep⟩ := Option.bind_eq_some_iff.mp hu'
  have hrun : run identityStep emptyDb (deletedA ++ [observeA 5 700001]) = some u' :=
    run_append.mpr ⟨u, hu, run_cons_eq_some.mpr ⟨u', hstep, rfl⟩⟩
  obtain ⟨f, hf, hs⟩ := hall _ u' hrun deletedA _ [] u u' rfl hu hstep 0 ['a'] ⟨rfl, rfl, rfl⟩
  rw [hf, Option.map_some, hs] at hpurged
  cases hpurged

/-- A first observation: its file is active. -/
theorem present_file_active_observed :
    ∃ db, run identityStep emptyDb [observeA 3 1] = some db ∧
      ∀ bs u, bs <+: [observeA 3 1] → run identityStep emptyDb bs = some u →
        ∀ f ∈ u.catalog.files, f.currentPath.isSome → f.status = .active :=
  ⟨_, rfl, (present_file_active_iff [observeA 3 1] _ rfl).2.mpr
    ⟨fun _ hf => absurd hf not_mem_nil, fun _ _ => trivial⟩⟩

end Frostvault
