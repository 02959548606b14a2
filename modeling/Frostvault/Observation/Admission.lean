import Frostvault.Observation.LocalCopies

/-!
Content held back at a cloud-only path, and the admission of Jobs
(`app/services/catalog_incidents.py`, `app/catalog.py` and
`app/services/operation_policies.py`).

* `settleCopies`: what `settle_cloud_only_copies` does to the Local Copies;
  `setLocalFingerprint_eq`: a fingerprint is a digest that is settled;
* `settleCloudOnlyCopies`, `confirmCloudOnlyReplacement`: the same with the conflicts the
  Owner sees, and the Owner's choice;
* `queueJobs`, `queueAutoUploads`: the admission of Jobs by hand and by policy.
-/

namespace Frostvault

/-! ### Conflicts -/

/-- A `cloud_only_conflict` row of `catalog_incidents`. -/
structure CloudOnlyConflict where
  id : ℕ
  vaultId : VaultId
  vaultFileId : FileId
  archiveVersionId : RowId
  path : Path
  /-- `status='open'`; the other status is `'resolved'`. -/
  isOpen : Bool
  objectKey : ObjectKey
  providerVersionId : Option ProviderVersionId
  openedAt : Stamp
  lastSeenAt : Stamp
  resolvedAt : Option Stamp
deriving DecidableEq, Repr

/-- The catalog and its conflicts. -/
structure HoldWorld where
  cat : Catalog
  conflicts : List CloudOnlyConflict

/-- The version a Local Copy is held back for. -/
def VaultFile.hold (f : VaultFile) : Option RowId := f.localCopy.bind LocalCopy.cloudOnlyVersionId

/-- The file has a Local Copy that is present. -/
def VaultFile.present (f : VaultFile) : Bool := f.localCopy.any fun lc => lc.presence = .present

/-! ### `settle_cloud_only_copies` -/

/-- The rows it considers: those of the Vault, or the one at the path. -/
def settles (v : VaultId) (path : Option Path) (f : VaultFile) : Bool :=
  f.vaultId = v && f.currentPath.any fun p => path.all fun q => p = q

/-- What it does to the Local Copies. -/
def settleCopies (cat : Catalog) (v : VaultId) (path : Option Path) : Catalog :=
  cat.mapLocalCopies fun f =>
    if settles v path f then f.localCopy.map (settleCloudOnly cat) else f.localCopy

/-- The `UPDATE` of `set_local_fingerprint`. -/
def writeFingerprint (cat : Catalog) (v : VaultId) (p : Path) (digest : Digest)
    (matched : Option RowId) : Catalog :=
  cat.mapLocalCopies fun f =>
    if f.vaultId = v ∧ f.currentPath = some p then
      f.localCopy.map fun lc =>
        { lc with plaintextSha256 := some digest, matchedArchiveVersionId := matched }
    else f.localCopy

/-- Versions are found in a catalog whose Local Copies changed. -/
@[simp] lemma Catalog.version?_mapLocalCopies (cat : Catalog)
    (g : VaultFile → Option LocalCopy) (id : RowId) :
    (cat.mapLocalCopies g).version? id = cat.version? id := by
  unfold Catalog.version?
  congr 1
  simp only [mapLocalCopies, mapFiles, List.flatMap_map]

/-- The catalog only looks versions up to settle a copy. -/
lemma settleCloudOnly_congr {cat cat' : Catalog} (h : ∀ id, cat.version? id = cat'.version? id)
    (lc : LocalCopy) : settleCloudOnly cat lc = settleCloudOnly cat' lc := by
  unfold settleCloudOnly
  cases lc.cloudOnlyVersionId with
  | none => rfl
  | some id => simp only [h id]

/-- With a path, the rows are the file that holds it. -/
lemma settles_some {v : VaultId} {p : Path} {f : VaultFile} :
    settles v (some p) f = decide (f.vaultId = v ∧ f.currentPath = some p) := by
  cases h : f.currentPath with
  | none => simp [settles, h]
  | some q => simp [settles, h]

/-- **A fingerprint is a digest that is settled.** -/
theorem setLocalFingerprint_eq (cat : Catalog) (v : VaultId) (p : Path) (digest : Digest)
    (matched : Option RowId) :
    setLocalFingerprint cat v p digest matched =
      settleCopies (writeFingerprint cat v p digest matched) v (some p) := by
  refine Catalog.eq_of_rows ?_ rfl rfl
  simp only [setLocalFingerprint, settleCopies, writeFingerprint, Catalog.mapLocalCopies,
    Catalog.mapFiles, List.map_map]
  refine List.map_congr_left fun f _ => ?_
  have hsettle (lc : LocalCopy) : settleCloudOnly cat lc =
      settleCloudOnly (writeFingerprint cat v p digest matched) lc :=
    settleCloudOnly_congr (fun id => (cat.version?_mapLocalCopies _ id).symm) lc
  simp only [Function.comp_apply, settles_some]
  by_cases hf : f.vaultId = v ∧ f.currentPath = some p
  · cases hlc : f.localCopy with
    | none => simp [hf]
    | some lc =>
        simp only [hf, and_self, if_true, decide_true, Option.map_some]
        rw [hsettle]
        rfl
  · simp [hf]

/-- Different content that stays held back, with the version it is held for. -/
def conflictOf (cat : Catalog) (f : VaultFile) : Option ArchiveVersion := do
  let lc ← f.localCopy
  let id ← lc.cloudOnlyVersionId
  let w ← cat.version? id
  guard (w.integrity = .verified ∧ w.availability = .available ∧ lc.presence = .present ∧
    lc.fileType = .regular ∧ lc.plaintextSha256.isSome ∧ lc.plaintextSha256 ≠ w.plaintextSha256)
  some w

/-- `_open_cloud_only_conflict`: one open conflict for each version. -/
def openConflict (stamp : Stamp) (conflicts : List CloudOnlyConflict) (f : VaultFile)
    (w : ArchiveVersion) : List CloudOnlyConflict :=
  if conflicts.any fun c => c.archiveVersionId = w.id && c.isOpen then
    conflicts.map fun c =>
      if c.archiveVersionId = w.id && c.isOpen then { c with lastSeenAt := stamp } else c
  else conflicts ++ [⟨Catalog.fresh (conflicts.map CloudOnlyConflict.id), f.vaultId, f.id, w.id,
    f.currentPath.getD [], true, w.objectKey, w.providerVersionId, stamp, stamp, none⟩]

/-- `status='resolved'`. -/
def CloudOnlyConflict.resolve (c : CloudOnlyConflict) (stamp : Stamp) : CloudOnlyConflict :=
  { c with
    isOpen := false
    resolvedAt := some stamp
    lastSeenAt := stamp }

/-- `settle_cloud_only_copies`: the copies are settled, what stays held back opens a conflict,
and conflicts whose content left the path are resolved. -/
def settleCloudOnlyCopies (w : HoldWorld) (v : VaultId) (path : Option Path) (stamp : Stamp) :
    HoldWorld :=
  let cat := settleCopies w.cat v path
  let opened := (w.cat.files.filter (settles v path)).foldl (fun conflicts f =>
    match conflictOf w.cat f with
    | some u => openConflict stamp conflicts f u
    | none => conflicts) w.conflicts
  { cat := cat
    conflicts := opened.map fun c =>
      if c.vaultId = v && c.isOpen && (path.all fun p => c.path = p) &&
          !cat.files.any (fun f => f.id = c.vaultFileId && f.hold = some c.archiveVersionId &&
            f.present)
      then c.resolve stamp else c }

/-- `set_local_fingerprint`. -/
def fingerprintCopies (w : HoldWorld) (v : VaultId) (p : Path) (digest : Digest)
    (matched : Option RowId) (stamp : Stamp) : HoldWorld :=
  settleCloudOnlyCopies { w with cat := writeFingerprint w.cat v p digest matched } v (some p) stamp

/-- The open conflict of a path with the highest id. -/
def openConflictAt (conflicts : List CloudOnlyConflict) (v : VaultId) (p : Path) :
    Option CloudOnlyConflict :=
  (conflicts.filter fun c => c.vaultId = v && c.path = p && c.isOpen).foldl (fun best c =>
    match best with
    | some b => if b.id < c.id then some c else some b
    | none => some c) none

/-- `confirm_cloud_only_replacement`: the Owner's choice for an open conflict. -/
def confirmCloudOnlyReplacement (w : HoldWorld) (v : VaultId) (p : Path) (stamp : Stamp) :
    Option HoldWorld := do
  let settled := settleCloudOnlyCopies w v (some p) stamp
  let c ← openConflictAt settled.conflicts v p
  let released := fun f : VaultFile =>
    f.id = c.vaultFileId && f.hold = some c.archiveVersionId && f.present
  guard (settled.cat.files.any released)
  some
    { cat := settled.cat.mapLocalCopies fun f =>
        if released f then f.localCopy.map fun lc => { lc with cloudOnlyVersionId := none }
        else f.localCopy
      conflicts := settled.conflicts.map fun c' => if c'.id = c.id then c'.resolve stamp else c' }

/-! ### `queue_jobs` -/

/-- The arguments of `queue_jobs`. -/
structure QueueRequest where
  vaultId : VaultId
  path : Path
  action : JobAction
  origin : JobOrigin
  isDirectory : Bool
  wholeVault : Bool
  archiveVersionId : Option RowId
  targetStorageClass : Option StorageClass
  initialStatus : JobStatus
  pendingUntil : Option Stamp
  requestedAt : Stamp
  groupId : GroupId

/-- What `intercept_upload` answers for the file of an eligible upload: nothing, that an open
remediation handles it, or the columns of the reconcile-only Job it admitted for the file. -/
inductive Interception
  | none
  | handled
  | resumed (requestedAt : Stamp) (archiveVersionId : Option RowId)
      (uploadPlaintextSha256 : Option Digest) (uploadSnapshot : Option UploadSnapshot)
      (mode : Option VerificationMode)

/-- The path clause of the selection. -/
def QueueRequest.covers (q : QueueRequest) (p : Path) : Bool :=
  q.wholeVault ||
  if q.isDirectory then Text.like p (Text.escapeLike q.path ++ ['/', '%']) else p = q.path

/-- A version is pinned by its exact id. -/
def QueueRequest.pinned (q : QueueRequest) : Option RowId :=
  if (q.action = .recover ∨ q.action = .storageClass) ∧ !q.isDirectory ∧ !q.wholeVault then
    q.archiveVersionId
  else none

/-- The version joined to a candidate without exact id. -/
def QueueRequest.latest (q : QueueRequest) (f : VaultFile) : Option ArchiveVersion :=
  newest (f.versions.filter fun w =>
    w.availability ≠ .missing && w.availability ≠ .purged &&
      ((q.action ≠ .recover && q.action ≠ .storageClass) ||
        (w.availability = .available && (q.action ≠ .recover || w.integrity = .verified))))

/-- A selected row: the file, its path and the joined version. -/
structure QueueRow where
  file : VaultFile
  path : Path
  version : Option ArchiveVersion

/-- The row of a file, when the selection has one. -/
def QueueRequest.row (q : QueueRequest) (cat : Catalog) (f : VaultFile) : Option QueueRow := do
  let p ← f.currentPath
  guard (f.vaultId = q.vaultId ∧ f.status = .active ∧ hasPendingJob cat f.id = false ∧ q.covers p)
  let version ← match q.pinned with
    | some id => (f.versions.find? fun w => w.id = id).map some
    | none => some (q.latest f)
  -- an exact id pins the current snapshot, it cannot select history
  guard (q.action = .recover ∧ q.archiveVersionId.isSome →
    version.isSome ∧ version.map ArchiveVersion.id = f.onlyCloudCopy)
  some ⟨f, p, version⟩

/-- The columns the eligibility of an upload is decided by. -/
def QueueRow.visible (jobs : List Job) (r : QueueRow) : VisibleRow :=
  { rowAt jobs r.file r.path with
    archiveVersionId := r.version.map ArchiveVersion.id
    cloudSize := r.version.bind ArchiveVersion.size
    storageClass := r.version.bind ArchiveVersion.storageClass
    versionSha256 := r.version.bind ArchiveVersion.plaintextSha256
    integrity := r.version.map ArchiveVersion.integrity
    availability := r.version.map ArchiveVersion.availability
    restoreState := r.version.bind ArchiveVersion.restoreState }

/-- `allowed`, for the actions other than uploads; `none` for an action that is not
supported. -/
def QueueRequest.allowed (q : QueueRequest) (r : VisibleRow) : Option Bool :=
  let backed := r.archiveVersionId.isSome && r.integrity = some .verified &&
    r.availability = some .available
  match q.action with
  | .upload => some (localCopyIsUploadEligible r)
  | .recover => some (r.localPresence ≠ some .present && backed)
  | .freeSpace => some (r.localPresence = some .present && r.localFileType = some .regular &&
      backed && r.matchedArchiveVersionId = r.archiveVersionId && r.localSha256.isSome &&
      r.localSha256 = r.versionSha256)
  | .rename => some (r.localPresence = some .present && r.localFileType = some .regular && backed)
  | .storageClass => some (r.archiveVersionId.isSome && r.availability = some .available &&
      r.restoreState ≠ some .restoring &&
      !q.targetStorageClass.any fun target =>
        target ≠ "" && (r.storageClass.getD "STANDARD").toUpper = target.toUpper)
  | _ => none

/-- `INSERT INTO jobs .. ON CONFLICT DO NOTHING`: `jobs_one_active_file_uq` allows one open Job
for a file. -/
def insertOpenJob (cat : Catalog) (file : FileId) (job : JobId → Job)
    (hid : ∀ n, (job n).id = n) : Catalog × Option JobId :=
  if hasPendingJob cat file then (cat, none)
  else (cat.insertJob job hid fun _ => [], some cat.freshJobId)

/-- The Job of a row. -/
def QueueRequest.job (q : QueueRequest) (mode : Option VerificationMode) (r : QueueRow)
    (n : JobId) : Job where
  id := n
  vaultId := q.vaultId
  vaultFileId := r.file.id
  path := r.path
  action := q.action
  status := q.initialStatus
  origin := q.origin
  groupId := some q.groupId
  requestedAt := q.requestedAt
  pendingUntil := if q.action = .recover then q.pendingUntil else none
  claimToken := none
  claimExpiresAt := none
  archiveVersionId := if q.action = .upload then none else r.version.map ArchiveVersion.id
  uploadVerificationRequested := if q.action = .upload then mode else none

lemma QueueRequest.job_id (q : QueueRequest) (mode : Option VerificationMode) (r : QueueRow)
    (n : JobId) : (q.job mode r n).id = n := rfl

/-- The reconcile-only Job of an intercepted upload. -/
def resumedJob (q : QueueRequest) (r : QueueRow) (requestedAt : Stamp)
    (archiveVersionId : Option RowId) (sha : Option Digest) (snapshot : Option UploadSnapshot)
    (mode : Option VerificationMode) (n : JobId) : Job where
  id := n
  vaultId := q.vaultId
  vaultFileId := r.file.id
  path := r.path
  action := .upload
  status := .queued
  origin := q.origin
  groupId := some q.groupId
  requestedAt := requestedAt
  pendingUntil := none
  claimToken := none
  claimExpiresAt := none
  archiveVersionId := archiveVersionId
  uploadReconcileOnly := true
  uploadPlaintextSha256 := sha
  uploadSnapshot := snapshot
  uploadVerificationRequested := mode

/-- The loop over the candidates: the rows that are eligible, the Jobs that were resumed, and
the catalog with them. -/
structure Eligible where
  cat : Catalog
  rows : List QueueRow
  jobIds : List JobId

/-- One candidate. -/
def QueueRequest.consider (q : QueueRequest) (intercept : FileId → Interception)
    (acc : Eligible) (r : QueueRow) : Option Eligible := do
  let allowed ← q.allowed (r.visible acc.cat.jobs)
  if allowed then
    if q.action = .upload then
      match intercept r.file.id with
      | .none => some { acc with rows := acc.rows ++ [r] }
      | .handled => some acc
      | .resumed requestedAt archiveVersionId sha snapshot mode =>
          let (cat, job) := insertOpenJob acc.cat r.file.id
            (resumedJob q r requestedAt archiveVersionId sha snapshot mode) fun _ => rfl
          some { acc with cat := cat, jobIds := acc.jobIds ++ job.toList }
    else some { acc with rows := acc.rows ++ [r] }
  else some acc

/-- One insert. -/
def QueueRequest.insertRow (q : QueueRequest) (mode : Option VerificationMode)
    (acc : Catalog × List JobId) (r : QueueRow) : Catalog × List JobId :=
  let (cat, job) := insertOpenJob acc.1 r.file.id (q.job mode r)
    (q.job_id mode r)
  (cat, acc.2 ++ job.toList)

/-- `queue_jobs`; `mode` is the verification the policy asks of uploads.  It raises for an
origin or an action it does not support. -/
def queueJobs (intercept : FileId → Interception) (mode : Option VerificationMode)
    (cat : Catalog) (q : QueueRequest) : Option (Catalog × List JobId) := do
  guard (q.origin = .manual ∨ q.origin = .automatic)
  let candidates := cat.files.filterMap (q.row cat)
  let found ← candidates.foldlM (q.consider intercept) ⟨cat, [], []⟩
  some (found.rows.foldl (q.insertRow mode) (found.cat, found.jobIds))

/-! ### `queue_auto_uploads` -/

/-- What `queue_auto_uploads` is called with; `ready` says that the policy includes the path,
and that the file on disk is the one the row describes and is stable. -/
structure AutoUpload where
  vaultId : VaultId
  autoUpload : Bool
  decommissionState : DecommissionState
  retryFailedOnly : Bool
  ready : Path → LocalCopy → Bool
  requestedAt : Stamp
  groupId : Path → GroupId

/-- The row of `queue_auto_uploads` for a file. -/
def AutoUpload.row (a : AutoUpload) (cat : Catalog) (f : VaultFile) : Option Path := do
  let p ← f.currentPath
  let lc ← f.localCopy
  let av := lc.matchedArchiveVersionId.bind cat.version?
  guard (f.vaultId = a.vaultId ∧ f.status = .active ∧ lc.presence = .present ∧
    lc.fileType = .regular ∧ lc.cloudOnlyVersionId = none)
  guard (av.all fun w => w.availability ≠ .purged)
  guard (¬ (lc.matchedArchiveVersionId.isSome ∧ lc.plaintextSha256.isSome ∧ av.any fun w =>
    w.integrity = .verified && w.availability = .available &&
      w.plaintextSha256 = lc.plaintextSha256))
  guard (hasPendingJob cat f.id = false)
  guard (if a.retryFailedOnly then failedUploadSql cat.jobs f.id
    else ¬ cat.jobs.any fun j => j.vaultFileId = f.id && j.action = .upload &&
      j.origin = .automatic && (j.status = .failed || j.status = .cancelled) &&
      (lc.contentObservedAt.getD lc.observedAt) ≤ j.requestedAt)
  guard (¬ cat.items.any fun i => i.vaultFileId = f.id && i.status = .pending)
  guard (a.ready p lc)
  some p

/-- The request for one row. -/
def AutoUpload.request (a : AutoUpload) (p : Path) : QueueRequest where
  vaultId := a.vaultId
  path := p
  action := .upload
  origin := .automatic
  isDirectory := false
  wholeVault := false
  archiveVersionId := none
  targetStorageClass := none
  initialStatus := .queued
  pendingUntil := none
  requestedAt := a.requestedAt
  groupId := a.groupId p

/-- `queue_auto_uploads`. -/
def queueAutoUploads (intercept : FileId → Interception) (mode : Option VerificationMode)
    (cat : Catalog) (a : AutoUpload) : Option (Catalog × List JobId) :=
  if a.autoUpload && a.decommissionState = .active then
    (cat.files.filterMap (a.row cat)).foldlM (fun acc p => do
      let (cat', jobs) ← queueJobs intercept mode acc.1 (a.request p)
      some (cat', acc.2 ++ jobs)) (cat, [])
  else some (cat, [])

end Frostvault
