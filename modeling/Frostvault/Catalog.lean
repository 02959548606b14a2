import Frostvault.Lib.Text
import Mathlib.Data.List.Flatten

/-!
The archive catalog (`migrations/versions/0002_versioned_archive.py` and its
successors): Vault Files with their paths, Local Copies and Archive Versions, the
Jobs and the items of delayed cloud deletions.

Rows that hang from a Vault File by a foreign key are stored with it: its current
path (`file_paths` with `valid_to IS NULL`, at most one per file), its Path History,
its Local Copy (keyed by `vault_file_id`) and its Archive Versions.  What the unique
indexes promise across files is a field of `Catalog`, so that a catalog that breaks
them cannot be built.

* `Catalog.file?`, `Catalog.fileAt?`: a file by its id and by its current path;
* `Catalog.mapFiles`, `Catalog.mapJobs`, `Catalog.mapItems`: rewrite rows, their keys kept;
* `Catalog.insertFile`: a new identity at a path nobody holds;
* `Catalog.insertJob`: a new Job with its deletion items.
-/

namespace Frostvault

open List

/-- A Vault-relative path, as its characters. -/
abbrev Path := List Char

abbrev VaultId := ℕ
abbrev FileId := ℕ
abbrev JobId := ℕ
abbrev GroupId := ℕ
abbrev Digest := ℕ
abbrev StorageClass := String

/-- `archive_versions.id`. -/
abbrev RowId := ℕ

/-- The `VersionId` of an object version in the bucket. -/
abbrev ProviderVersionId := ℕ

/-- An object key in the bucket. -/
abbrev ObjectKey := ℕ

/-- Equality of object versions is decided column by column. -/
instance lawfulBEq_objectVersion : LawfulBEq (ObjectKey × ProviderVersionId) := inferInstance

/-- A time stamp or scan id; both are texts the code only compares. -/
abbrev Stamp := ℕ

/-! ### Column domains -/

/-- `vault_files_status_ck`. -/
inductive FileStatus
  | active | retired | purged
deriving DecidableEq, Repr

/-- `local_copies_presence_ck`. -/
inductive Presence
  | present | missing | unsupported
deriving DecidableEq, Repr

/-- `local_copies_file_type_ck`. -/
inductive FileType
  | regular | symlink | other
deriving DecidableEq, Repr

/-- `archive_versions_integrity_ck`. -/
inductive Integrity
  | unverified | verified | mismatch
deriving DecidableEq, Repr

/-- `archive_versions_availability_ck`. -/
inductive Availability
  | unknown | available | missing | purged
deriving DecidableEq, Repr

/-- The provider's restore state of an archived version. -/
inductive RestoreState
  | notRequested | restoring | available
deriving DecidableEq, Repr

/-- `jobs_action_check`. -/
inductive JobAction
  | upload | recover | freeSpace | rename | cloudArchive | cloudPurge | storageClass
deriving DecidableEq, Repr

/-- The statuses a Job moves through. -/
inductive JobStatus
  | pendingApproval | pendingDelay | queued | retrying | uploading | verifying | restoring
  | downloading | cleaning | completed | failed | cancelled
deriving DecidableEq, Repr

/-- `JOB_TERMINAL_STATUSES`. -/
def JobStatus.terminal : JobStatus → Bool
  | .completed | .failed | .cancelled => true
  | _ => false

/-- `jobs_origin_ck`. -/
inductive JobOrigin
  | manual | automatic | stopProtection
deriving DecidableEq, Repr

/-- The status of a row of `cloud_deletion_items`. -/
inductive ItemStatus
  | pending | deleted | failed | skipped
deriving DecidableEq, Repr

/-- `archive_versions_origin_ck`. -/
inductive VersionOrigin
  | upload | discovered | legacy
deriving DecidableEq, Repr

/-- `archive_versions.storage_class_source`. -/
inductive ClassSource
  | unknown | manual | discovered | upload
deriving DecidableEq, Repr

/-- `upload_intent_mode`: how an upload is to be verified. -/
inductive VerificationMode
  | s3Checksum | readBack
deriving DecidableEq, Repr

/-- What a row of `cloud_deletion_items` points at. -/
inductive ItemKind
  | version | deleteMarker
deriving DecidableEq, Repr

/-! ### Rows -/

/-- A row of `local_copies`. -/
structure LocalCopy where
  presence : Presence
  fileType : FileType
  size : Option ℕ
  mtimeNs : Option ℤ
  plaintextSha256 : Option Digest
  matchedArchiveVersionId : Option RowId
  cloudOnlyVersionId : Option RowId
  lastSeenAt : Option Stamp
  observedAt : Stamp
  contentObservedAt : Option Stamp
  recoveredAt : Option Stamp
deriving DecidableEq, Repr

/-- A row of `archive_versions`.  Discovered versions are numbered below the known
ones, so a version number may be negative. -/
structure ArchiveVersion where
  id : RowId
  versionNumber : ℤ
  objectKey : ObjectKey
  providerVersionId : Option ProviderVersionId
  size : Option ℕ
  storageClass : Option StorageClass
  plaintextSha256 : Option Digest
  integrity : Integrity
  availability : Availability
  availabilityCheckedAt : Option Stamp
  restoreState : Option RestoreState
  discoveredAt : Stamp
  etag : Option String
  uploadedAt : Option Stamp
  origin : VersionOrigin
  storageClassSource : ClassSource
deriving DecidableEq, Repr

/-- A row of `delete_markers`. -/
structure DeleteMarker where
  id : RowId
  objectKey : ObjectKey
  providerVersionId : ProviderVersionId
  createdAt : Stamp
  discoveredAt : Stamp
deriving DecidableEq, Repr

/-- A closed row of `file_paths`. -/
structure PathRow where
  path : Path
  validFrom : Stamp
  validTo : Stamp
deriving DecidableEq, Repr

/-- A row of `vault_files` with the rows that belong to it. -/
structure VaultFile where
  id : FileId
  vaultId : VaultId
  status : FileStatus
  currentPath : Option Path
  /-- `valid_from` of the current path. -/
  pathSince : Stamp
  pathHistory : List PathRow
  localCopy : Option LocalCopy
  versions : List ArchiveVersion
  deleteMarkers : List DeleteMarker
deriving DecidableEq, Repr

/-- `UploadSnapshot` (`app/services/upload_snapshot.py`): the bytes an upload hashed.  The
database keeps its `as_json`, here it keeps the snapshot. -/
structure UploadSnapshot where
  size : ℕ
  plaintextSha256 : Digest
  checksumType : String
  checksumSha256 : String
  partSize : ℕ
  partChecksums : List String
deriving DecidableEq, Repr

/-- A row of `jobs`.  The columns of uploads keep their defaults in the Jobs of other
actions. -/
structure Job where
  id : JobId
  vaultId : VaultId
  vaultFileId : FileId
  path : Path
  action : JobAction
  status : JobStatus
  origin : JobOrigin
  groupId : Option GroupId
  requestedAt : Stamp
  pendingUntil : Option Stamp
  claimToken : Option ℕ
  claimExpiresAt : Option Stamp
  archiveVersionId : Option RowId := none
  uploadReconcileOnly : Bool := false
  uploadPlaintextSha256 : Option Digest := none
  uploadSnapshot : Option UploadSnapshot := none
  uploadVerificationRequested : Option VerificationMode := none
deriving DecidableEq, Repr

/-- A row of `cloud_deletion_items`: one exact version, or delete marker, that a deletion
Job may remove. -/
structure DeletionItem where
  id : ℕ
  jobId : JobId
  vaultFileId : FileId
  kind : ItemKind
  archiveVersionId : Option RowId
  deleteMarkerId : Option RowId
  objectKey : ObjectKey
  providerVersionId : ProviderVersionId
  sizeBytes : ℕ
  status : ItemStatus
deriving DecidableEq, Repr

/-- `file_paths_one_current_path_uq`: two files of one Vault hold different current
paths. -/
def PathsDistinct (f g : VaultFile) : Prop :=
  f.vaultId = g.vaultId → ∀ p, f.currentPath = some p → g.currentPath ≠ some p

instance : Std.Symm PathsDistinct where
  symm _ _ h hv p hg hf := h hv.symm p hf hg

/-- The columns of a row of `archive_versions` that its indexes look at. -/
structure VersionKey where
  id : RowId
  vaultId : VaultId
  objectKey : ObjectKey
  providerVersionId : Option ProviderVersionId
deriving DecidableEq, Repr

/-- The keys of the versions of a file. -/
def VaultFile.versionKeys (f : VaultFile) : List VersionKey :=
  f.versions.map fun w => ⟨w.id, f.vaultId, w.objectKey, w.providerVersionId⟩

/-- The primary key and `archive_versions_object_version_uq`: a unique index does not compare
rows without version id. -/
def KeysDistinct (a b : VersionKey) : Prop :=
  a.id ≠ b.id ∧ (a.vaultId = b.vaultId → a.objectKey = b.objectKey →
    ∀ n, a.providerVersionId = some n → b.providerVersionId ≠ some n)

instance : Std.Symm KeysDistinct where
  symm _ _ h := ⟨h.1.symm, fun hv hk n hn ha => h.2 hv.symm hk.symm n ha hn⟩

/-- The catalog, with the promises of its unique indexes. -/
structure Catalog where
  files : List VaultFile
  jobs : List Job
  items : List DeletionItem
  ids_nodup : (files.map VaultFile.id).Nodup
  paths_unique : files.Pairwise PathsDistinct
  versions_unique : (files.flatMap VaultFile.versionKeys).Pairwise KeysDistinct
  jobIds_nodup : (jobs.map Job.id).Nodup

/-- The catalog of an empty installation. -/
def Catalog.empty : Catalog :=
  ⟨[], [], [], nodup_nil, List.Pairwise.nil, List.Pairwise.nil, nodup_nil⟩

/-! ### The newest version of a file -/

/-- `ORDER BY version_number DESC LIMIT 1`. -/
def newest : List ArchiveVersion → Option ArchiveVersion
  | [] => none
  | v :: vs =>
      match newest vs with
      | none => some v
      | some w => if v.versionNumber < w.versionNumber then some w else some v

variable {vs : List ArchiveVersion}

/-- The row picked is one of the rows. -/
lemma newest_mem {w : ArchiveVersion} (h : newest vs = some w) :
    w ∈ vs := by
  induction vs generalizing w with
  | nil => simp [newest] at h
  | cons v vs ih =>
      cases hn : newest vs with
      | none =>
          simp only [newest, hn, Option.some.injEq] at h
          simp [h]
      | some u =>
          simp only [newest, hn] at h
          split at h <;> cases h
          · exact mem_cons_of_mem _ (ih hn)
          · exact mem_cons_self

/-- There is a newest row as soon as there is a row. -/
lemma newest_eq_none : newest vs = none ↔ vs = [] := by
  cases vs with
  | nil => simp [newest]
  | cons v vs =>
      rw [newest]
      cases newest vs with
      | none => simp
      | some w => by_cases hlt : v.versionNumber < w.versionNumber <;> simp [hlt]

/-- No row is newer than the one picked. -/
lemma newest_le {w : ArchiveVersion} (h : newest vs = some w) :
    ∀ u ∈ vs, u.versionNumber ≤ w.versionNumber := by
  induction vs generalizing w with
  | nil => simp
  | cons v vs ih =>
      intro u hu
      cases hn : newest vs with
      | none =>
          simp only [newest, hn, Option.some.injEq] at h
          rw [newest_eq_none.mp hn, mem_singleton] at hu
          exact Int.le_of_eq (congrArg ArchiveVersion.versionNumber (hu.trans h))
      | some x =>
          simp only [newest, hn] at h
          obtain rfl | hu := mem_cons.mp hu
          · split at h <;> cases h <;> omega
          · have hux := ih hn u hu
            split at h <;> cases h <;> omega

/-- `_only_cloud_copy_sql`: the newest verified and available version. -/
def VaultFile.onlyCloudCopy (f : VaultFile) : Option RowId :=
  (newest (f.versions.filter fun v =>
    v.integrity = .verified && v.availability = .available)).map ArchiveVersion.id

namespace Catalog

/-! ### Looking files up -/

variable {cat : Catalog} {f : VaultFile}

lemma eq_of_rows {cat' : Catalog} (hfiles : cat.files = cat'.files)
    (hjobs : cat.jobs = cat'.jobs) (hitems : cat.items = cat'.items) : cat = cat' := by
  cases cat
  cases cat'
  simp only at hfiles hjobs hitems
  subst hfiles hjobs hitems
  rfl

/-- The file with a given id. -/
def file? (cat : Catalog) (id : FileId) : Option VaultFile :=
  cat.files.find? fun f => f.id = id

/-- The file that holds a path in a Vault right now. -/
def fileAt? (cat : Catalog) (v : VaultId) (p : Path) : Option VaultFile :=
  cat.files.find? fun f => f.vaultId = v ∧ f.currentPath = some p

lemma eq_of_id_eq (cat : Catalog) {g : VaultFile} (hf : f ∈ cat.files) (hg : g ∈ cat.files)
    (h : f.id = g.id) : f = g :=
  inj_on_of_nodup_map cat.ids_nodup hf hg h

lemma eq_of_path_eq (cat : Catalog) {g : VaultFile} (hf : f ∈ cat.files) (hg : g ∈ cat.files)
    (hv : f.vaultId = g.vaultId) {p : Path} (hfp : f.currentPath = some p)
    (hgp : g.currentPath = some p) : f = g := by
  by_contra hne
  exact cat.paths_unique.forall hf hg hne hv p hfp hgp

lemma mem_of_file? {id : FileId} (h : cat.file? id = some f) :
    f ∈ cat.files ∧ f.id = id :=
  ⟨mem_of_find?_eq_some h, by simpa using find?_some h⟩

lemma file?_eq_of_mem (cat : Catalog) (hf : f ∈ cat.files) :
    cat.file? f.id = some f := by
  cases h : cat.file? f.id with
  | none =>
      have := find?_eq_none.mp h f hf
      simp at this
  | some g =>
      obtain ⟨hg, hid⟩ := mem_of_file? h
      rw [cat.eq_of_id_eq hg hf hid]

lemma mem_of_fileAt? {v : VaultId} {p : Path} (h : cat.fileAt? v p = some f) :
    f ∈ cat.files ∧ f.vaultId = v ∧ f.currentPath = some p :=
  ⟨mem_of_find?_eq_some h, by simpa using find?_some h⟩

/-- The lookup by path finds the file that holds it. -/
lemma fileAt?_eq_some_iff {v : VaultId} {p : Path} :
    cat.fileAt? v p = some f ↔ f ∈ cat.files ∧ f.vaultId = v ∧ f.currentPath = some p := by
  refine ⟨mem_of_fileAt?, ?_⟩
  rintro ⟨hf, hv, hp⟩
  cases h : cat.fileAt? v p with
  | none =>
      have := find?_eq_none.mp h f hf
      simp [hv, hp] at this
  | some g =>
      obtain ⟨hg, hgv, hgp⟩ := mem_of_fileAt? h
      rw [cat.eq_of_path_eq hg hf (hgv.trans hv.symm) hgp hp]

/-- No file holds the path when the lookup finds none. -/
lemma not_currentPath_of_fileAt?_none {v : VaultId} {p : Path}
    (h : cat.fileAt? v p = none) (hf : f ∈ cat.files) (hv : f.vaultId = v) :
    f.currentPath ≠ some p := by
  have := find?_eq_none.mp h f hf
  simpa [hv] using this

/-! ### Rewriting files -/

/-- The keys of rewritten files are among the keys of the files. -/
lemma versionKeys_sublist {g : VaultFile → VaultFile}
    (hw : ∀ f, (g f).versionKeys.Sublist f.versionKeys) (files : List VaultFile) :
    ((files.map g).flatMap VaultFile.versionKeys).Sublist
      (files.flatMap VaultFile.versionKeys) := by
  rw [flatMap_map]
  exact List.Sublist.flatMap_right files fun f _ => hw f

/-- Rewrite every file in a way that keeps its identity and its current path, and adds no
version. -/
def mapFiles (cat : Catalog) (g : VaultFile → VaultFile) (hid : ∀ f, (g f).id = f.id)
    (hv : ∀ f, (g f).vaultId = f.vaultId) (hp : ∀ f, (g f).currentPath = f.currentPath)
    (hw : ∀ f, (g f).versionKeys.Sublist f.versionKeys) : Catalog where
  files := cat.files.map g
  jobs := cat.jobs
  items := cat.items
  ids_nodup := by
    rw [map_map, show VaultFile.id ∘ g = VaultFile.id from funext hid]
    exact cat.ids_nodup
  paths_unique := by
    rw [pairwise_map]
    refine cat.paths_unique.imp fun {a b} hab => ?_
    simp only [PathsDistinct, hv, hp]
    exact hab
  versions_unique := cat.versions_unique.sublist (versionKeys_sublist hw cat.files)
  jobIds_nodup := cat.jobIds_nodup

/-- Rewrite the Local Copies of all files. -/
def mapLocalCopies (cat : Catalog) (g : VaultFile → Option LocalCopy) : Catalog :=
  cat.mapFiles (fun f => { f with localCopy := g f }) (fun _ => rfl) (fun _ => rfl)
    (fun _ => rfl) fun _ => List.Sublist.refl _

/-- A rewriting of version rows that keeps the columns of the indexes. -/
structure KeepsKeys (g : VaultFile → ArchiveVersion → ArchiveVersion) : Prop where
  id : ∀ f w, (g f w).id = w.id
  objectKey : ∀ f w, (g f w).objectKey = w.objectKey
  providerVersionId : ∀ f w, (g f w).providerVersionId = w.providerVersionId

/-- Rewrite the Archive Versions of all files, their keys kept. -/
def mapVersions (cat : Catalog) (g : VaultFile → ArchiveVersion → ArchiveVersion)
    (hg : KeepsKeys g) : Catalog :=
  cat.mapFiles (fun f => { f with versions := f.versions.map (g f) }) (fun _ => rfl)
    (fun _ => rfl) (fun _ => rfl) fun f => by
      simp only [VaultFile.versionKeys, map_map, Function.comp_def, hg.id, hg.objectKey,
        hg.providerVersionId]
      exact List.Sublist.refl _

/-- A number above all of a list: the next value of a sequence, or a fresh `uuid4`. -/
def fresh (l : List ℕ) : ℕ := l.foldr max 0 + 1

lemma lt_fresh {l : List ℕ} {n : ℕ} (h : n ∈ l) : n < fresh l := by
  have hle : n ≤ l.foldr max 0 := by
    induction l with
    | nil => simp at h
    | cons a l ih =>
        rcases mem_cons.mp h with rfl | h
        · exact Nat.le_max_left _ _
        · exact Nat.le_trans (ih h) (Nat.le_max_right _ _)
  exact Nat.lt_succ_of_le hle

/-- An id no file has yet and no Job refers to. -/
def freshId (cat : Catalog) : FileId :=
  fresh (cat.files.map VaultFile.id ++ cat.jobs.map Job.vaultFileId)

lemma id_ne_freshId (cat : Catalog) (hf : f ∈ cat.files) :
    f.id ≠ cat.freshId :=
  Nat.ne_of_lt (lt_fresh (mem_append_left _ (mem_map_of_mem hf)))

lemma vaultFileId_ne_freshId (cat : Catalog) {j : Job} (hj : j ∈ cat.jobs) :
    j.vaultFileId ≠ cat.freshId :=
  Nat.ne_of_lt (lt_fresh (mem_append_right _ (mem_map_of_mem hj)))

/-- A new identity at a path nobody holds in the Vault: the two inserts of
`_get_or_create_file`. -/
def insertFile (cat : Catalog) (v : VaultId) (p : Path) (createdAt : Stamp)
    (h : cat.fileAt? v p = none) : Catalog where
  files := cat.files ++ [⟨cat.freshId, v, .active, some p, createdAt, [], none, [], []⟩]
  jobs := cat.jobs
  items := cat.items
  ids_nodup := by
    rw [map_append, nodup_append]
    refine ⟨cat.ids_nodup, by simp, ?_⟩
    intro a ha b hb
    obtain ⟨f, hf, rfl⟩ := mem_map.mp ha
    simp only [map_cons, map_nil, mem_singleton] at hb
    rw [hb]
    exact cat.id_ne_freshId hf
  paths_unique := by
    rw [pairwise_append]
    refine ⟨cat.paths_unique, by simp, ?_⟩
    intro f hf g hg
    rw [mem_singleton.mp hg]
    rintro hv q hq hqp
    cases hqp
    exact not_currentPath_of_fileAt?_none h hf hv hq
  versions_unique := by
    rw [flatMap_append]
    simpa [VaultFile.versionKeys] using cat.versions_unique
  jobIds_nodup := cat.jobIds_nodup

/-! ### Jobs and deletion items -/

/-- Rewrite every Job in a way that keeps its id. -/
def mapJobs (cat : Catalog) (g : Job → Job) (hid : ∀ j, (g j).id = j.id) : Catalog :=
  { cat with
    jobs := cat.jobs.map g
    jobIds_nodup := by
      rw [map_map, show Job.id ∘ g = Job.id from funext hid]
      exact cat.jobIds_nodup }

/-- Rewrite every deletion item. -/
def mapItems (cat : Catalog) (g : DeletionItem → DeletionItem) : Catalog :=
  { cat with items := cat.items.map g }

/-- The next value of the Jobs' sequence. -/
def freshJobId (cat : Catalog) : JobId := fresh (cat.jobs.map Job.id)

/-- A new Job with the deletion items it is admitted for. -/
def insertJob (cat : Catalog) (job : JobId → Job) (hid : ∀ n, (job n).id = n)
    (items : JobId → List DeletionItem) : Catalog :=
  { cat with
    jobs := cat.jobs ++ [job cat.freshJobId]
    items := cat.items ++ items cat.freshJobId
    jobIds_nodup := by
      rw [map_append, nodup_append]
      refine ⟨cat.jobIds_nodup, by simp, ?_⟩
      intro a ha b hb
      simp only [map_cons, map_nil, mem_singleton] at hb
      rw [hb, hid]
      exact Nat.ne_of_lt (lt_fresh ha) }

lemma job_eq_of_id_eq (cat : Catalog) {j k : Job} (hj : j ∈ cat.jobs) (hk : k ∈ cat.jobs)
    (h : j.id = k.id) : j = k :=
  inj_on_of_nodup_map cat.jobIds_nodup hj hk h

end Catalog

end Frostvault
