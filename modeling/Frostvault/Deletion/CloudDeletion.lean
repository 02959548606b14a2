import Frostvault.Aggregates.Rollup

/-!
The delayed cloud deletion (`app/services/cloud_deletion.py`), the lease of its worker
(`claim_purge_group` of `app/catalog.py`) and the restart reconciliation of an interrupted
group (`_reconcile_cloud_purge_group` and the failure branch of
`_reconcile_interrupted_jobs_impl` of `app/storage.py`).

A request is admitted as one `cloud-purge` Job per file, with one row of
`cloud_deletion_items` for each exact version and delete marker the consent covers.  What
the functions read outside the catalog (the Vault row, the health of the Vault, the absence
of the files on disk, the provider's listing) is a parameter of the step.

A function that raises is `none`: its transaction is rolled back.

* `scheduleCloudPurge`, `cancelCloudDeletion`, `validateExecution`: the consent;
* `markItemsDeleted`, `markItemsFailed`, `finalizePurgeJob`: the worker;
* `reconcileCloudPurgeGroup`, `reconcileInterruptedPurge`: after a restart;
* `purgeStep`: one of these transactions.
-/

namespace Frostvault

/-! ### What is read outside the catalog -/

/-- `vaults.decommission_state`. -/
inductive DecommissionState
  | active | decommissioning | decommissioned
deriving DecidableEq, Repr

/-- The Vault row under its lock, with what the workflow learns about the Vault outside the
catalog. -/
structure VaultView where
  name : String
  decommissionState : DecommissionState
  /-- `root_released_at` is set. -/
  rootReleased : Bool
  enabled : Bool
  /-- The object key starts with `s3_prefix` and a slash. -/
  ownsKey : ObjectKey → Bool
  /-- `observation_is_unconfirmed(load_vault_health(..))`. -/
  unconfirmed : Bool
  /-- `require_local_absence` proves that none of the paths exists. -/
  localAbsence : List Path → Bool
  /-- `protection_stops.group_id` where `cloud_disposition='delete'`. -/
  stopGroup : Option GroupId

/-- `lock_vault`: the Vault row, when there is one. -/
abbrev VaultTable := VaultId → Option VaultView

/-- `DELETION_DELAY_SECONDS`. -/
def deletionDelaySeconds : ℕ := 7 * 24 * 60 * 60

/-- The literal `"null"`, the `VersionId` of an object written to an unversioned bucket. -/
def nullVersionId : ProviderVersionId := 0

/-! ### Selection and validation -/

/-- A relative path in the normal form of `PurePosixPath`, without `..`. -/
def validRelativePath (p : Path) : Bool :=
  p ≠ [] && p.head? ≠ some '/' &&
    (p = ['.'] || (p.splitOn '/').all fun w => w ≠ [] && w ≠ ['.'] && w ≠ ['.', '.'])

/-- What a request selects. -/
structure Selection where
  paths : List Path
  isDirectory : Bool
  wholeVault : Bool

/-- Whether a current path is selected by one of the paths. -/
def Selection.covers (sel : Selection) (q : Path) : Bool :=
  sel.paths.any fun p =>
    q = p || (sel.isDirectory && Text.like q (Text.escapeLike p ++ ['/', '%']))

/-- `_selected_files`; it raises on an invalid path. -/
def selectedFiles (cat : Catalog) (v : VaultId) (sel : Selection) : Option (List VaultFile) :=
  if sel.wholeVault then
    some (cat.files.filter fun f => f.vaultId = v && f.latestVersion.isSome)
  else if sel.paths = [] ∨ (sel.paths.any fun p => !validRelativePath p) then none
  else some (cat.files.filter fun f => f.vaultId = v && f.currentPath.any sel.covers)

/-- One exact target in the cloud: a version or a delete marker. -/
structure DeletionTarget where
  kind : ItemKind
  rowId : RowId
  objectKey : ObjectKey
  providerVersionId : Option ProviderVersionId
  size : Option ℕ
deriving DecidableEq, Repr

/-- `_versions`: the versions that are not purged. -/
def versionTargets (f : VaultFile) : List DeletionTarget :=
  (f.versions.filter fun w => w.availability ≠ .purged).map fun w =>
    ⟨.version, w.id, w.objectKey, w.providerVersionId, w.size⟩

/-- `_markers`: the delete markers no earlier request has removed. -/
def markerTargets (cat : Catalog) (f : VaultFile) : List DeletionTarget :=
  (f.deleteMarkers.filter fun m =>
    !cat.items.any fun i => i.deleteMarkerId = some m.id && i.status = .deleted).map fun m =>
    ⟨.deleteMarker, m.id, m.objectKey, some m.providerVersionId, none⟩

/-- Everything a request for the file consents to delete. -/
def currentTargets (cat : Catalog) (f : VaultFile) : List DeletionTarget :=
  versionTargets f ++ markerTargets cat f

/-- The target has an exact `VersionId` below the prefix of the Vault. -/
def DeletionTarget.exact (vault : VaultView) (t : DeletionTarget) : Bool :=
  t.providerVersionId.any (· ≠ nullVersionId) && vault.ownsKey t.objectKey

/-- Work of the file outside the request's own group. -/
def otherPendingWork (cat : Catalog) (f : FileId) (ownGroup : Option GroupId) : Bool :=
  cat.jobs.any fun j =>
    j.vaultFileId = f && !j.status.terminal && (ownGroup.isNone || j.groupId ≠ ownGroup)

/-- The file is Cloud-only: nothing on disk, a verified and available latest version. -/
def isCloudOnlyFile (f : VaultFile) : Bool :=
  (f.localCopy.map LocalCopy.presence).all (· = .missing) &&
  (f.localCopy.bind LocalCopy.cloudOnlyVersionId).isNone &&
  f.latestVersion.any (fun w => w.integrity = .verified && w.availability = .available) &&
  f.currentPath.any (· ≠ [])

/-- `_validate_files`; `false` is a `CloudDeletionError`. -/
def validateFiles (cat : Catalog) (vault : VaultView) (files : List VaultFile)
    (ownGroup : Option GroupId) : Bool :=
  !vault.unconfirmed &&
  (files.all fun f =>
    isCloudOnlyFile f && !otherPendingWork cat f.id ownGroup &&
      (currentTargets cat f).all fun t => t.exact vault) &&
  vault.localAbsence (files.filterMap VaultFile.currentPath)

/-! ### Admission -/

/-- The row of `cloud_deletion_items` for a target. -/
def purgeItem (job : JobId) (f : FileId) (t : DeletionTarget) (id : ℕ) : DeletionItem where
  id := id
  jobId := job
  vaultFileId := f
  kind := t.kind
  archiveVersionId := if t.kind = .version then some t.rowId else none
  deleteMarkerId := if t.kind = .deleteMarker then some t.rowId else none
  objectKey := t.objectKey
  providerVersionId := t.providerVersionId.getD nullVersionId
  sizeBytes := t.size.getD 0
  status := .pending

/-- The Job of a selected file. -/
def purgeJob (v : VaultId) (f : VaultFile) (origin : JobOrigin) (g : GroupId)
    (requestedAt : Stamp) (id : JobId) : Job where
  id := id
  vaultId := v
  vaultFileId := f.id
  path := f.currentPath.getD []
  action := .cloudPurge
  status := .pendingDelay
  origin := origin
  groupId := some g
  requestedAt := requestedAt
  pendingUntil := some (requestedAt + deletionDelaySeconds)
  claimToken := none
  claimExpiresAt := none

/-- One round of the loop of `schedule_cloud_purge`: the Job of a file and its items. -/
def schedulePurgeOf (v : VaultId) (origin : JobOrigin) (g : GroupId) (requestedAt : Stamp)
    (cat : Catalog) (f : VaultFile) : Catalog :=
  cat.insertJob (purgeJob v f origin g requestedAt) (fun _ => rfl) fun job =>
    (currentTargets cat f).zipIdx.map fun (t, k) =>
      purgeItem job f.id t (Catalog.fresh (cat.items.map DeletionItem.id) + k)

/-- A group id no Job carries: the `uuid4` of a new request. -/
def freshGroupId (cat : Catalog) : GroupId := Catalog.fresh (cat.jobs.filterMap Job.groupId)

/-- `schedule_cloud_purge`. -/
def scheduleCloudPurge (vaults : VaultTable) (cat : Catalog) (v : VaultId) (sel : Selection)
    (requestedAt : Stamp) (confirmation reason : String) (origin : JobOrigin) :
    Option Catalog := do
  let vault ← vaults v
  guard (vault.decommissionState = .active ∧ vault.rootReleased = false)
  guard (origin = .manual ∨ origin = .stopProtection)
  guard (confirmation = vault.name)
  guard (reason.toList.any (fun c => !isSpace c) ∧ reason.length ≤ 500)
  let files ← selectedFiles cat v sel
  guard (files ≠ [])
  guard (validateFiles cat vault files none)
  some (files.foldl (schedulePurgeOf v origin (freshGroupId cat) requestedAt) cat)

/-! ### Cancellation -/

/-- The `cloud-purge` Jobs of a group. -/
def purgeGroup (cat : Catalog) (v : VaultId) (g : GroupId) : List Job :=
  cat.jobs.filter fun j => j.vaultId = v && j.groupId = some g && j.action = .cloudPurge

/-- The members of a group that are not terminal. -/
def activePurges (cat : Catalog) (v : VaultId) (g : GroupId) : List Job :=
  (purgeGroup cat v g).filter fun j => !j.status.terminal

/-- Set a Job's status and drop its claim. -/
def Job.settle (j : Job) (st : JobStatus) : Job :=
  { j with status := st, claimToken := none, claimExpiresAt := none }

/-- One round of `_cancel_rows`: the Job is cancelled and its open items are skipped. -/
def cancelRow (cat : Catalog) (job : JobId) : Catalog :=
  (cat.mapJobs (fun j => if j.id = job then j.settle .cancelled else j)
    fun j => by split <;> rfl).mapItems fun i =>
      if i.jobId = job ∧ (i.status = .pending ∨ i.status = .failed) then
        { i with status := .skipped } else i

/-- `_cancel_rows`. -/
def cancelRows (cat : Catalog) (rows : List Job) : Catalog :=
  (rows.map Job.id).foldl cancelRow cat

/-- `cancel_cloud_deletion`. -/
def cancelCloudDeletion (vaults : VaultTable) (cat : Catalog) (v : VaultId) (g : GroupId) :
    Option Catalog := do
  let _ ← vaults v
  let rows := purgeGroup cat v g
  guard (rows ≠ [] ∧ ∀ j ∈ rows, j.status = .pendingDelay ∧ j.claimToken = none)
  some (cancelRows cat rows)

/-! ### Execution -/

/-- The recorded target of an item is still the row it was taken from. -/
def itemUnchanged (cat : Catalog) (file : FileId) (i : DeletionItem) : Bool :=
  i.providerVersionId ≠ nullVersionId &&
  match i.kind with
  | .version => cat.files.any fun f => f.id = file && f.versions.any fun w =>
      some w.id = i.archiveVersionId && w.objectKey = i.objectKey &&
        w.providerVersionId = some i.providerVersionId
  | .deleteMarker => cat.files.any fun f => f.id = file && f.deleteMarkers.any fun m =>
      some m.id = i.deleteMarkerId && m.objectKey = i.objectKey &&
        m.providerVersionId = i.providerVersionId

/-- The consent of one Job still covers exactly what is in the cloud. -/
def consentCovers (cat : Catalog) (j : Job) : Bool :=
  let items := cat.items.filter fun i => i.jobId = j.id
  let current := ((cat.file? j.vaultFileId).map (currentTargets cat)).getD []
  (current ≠ [] || items.all fun i => i.status = .deleted) &&
  items ≠ [] &&
  (current.all fun t => items.any fun i =>
    i.objectKey = t.objectKey && some i.providerVersionId = t.providerVersionId) &&
  items.all (itemUnchanged cat j.vaultFileId)

/-- The checks of `validate_execution`; `false` is a `CloudDeletionError`. -/
def executionAuthorised (vault : VaultView) (cat : Catalog) (v : VaultId) (g : GroupId)
    (at_ : Stamp) : Bool :=
  let active := activePurges cat v g
  active ≠ [] && !vault.rootReleased &&
  (if vault.decommissionState = .active then
    vault.enabled && active.all fun j => j.origin = .manual
  else
    vault.decommissionState = .decommissioning && vault.stopGroup = some g &&
      active.all fun j => j.origin = .stopProtection) &&
  (active.all fun j => j.requestedAt + deletionDelaySeconds ≤ at_ &&
    j.pendingUntil.any (· ≤ at_)) &&
  match selectedFiles cat v ⟨active.map Job.path, false, false⟩ with
  | none => false
  | some files =>
      (files.all fun f => active.any fun j => j.vaultFileId = f.id) &&
      (active.all fun j => files.any fun f => j.vaultFileId = f.id) &&
      vault.localAbsence (files.filterMap VaultFile.currentPath) &&
      validateFiles cat vault (files.filter fun f => f.latestVersion.isSome) (some g) &&
      active.all (consentCovers cat)

/-- `validate_execution`: the catalog after it, and whether the deletion may go on. -/
def validateExecution (vaults : VaultTable) (cat : Catalog) (v : VaultId) (g : GroupId)
    (at_ : Stamp) : Option (Catalog × Bool) := do
  let vault ← vaults v
  if executionAuthorised vault cat v g at_ then some (cat, true)
  else some (cancelRows cat (activePurges cat v g), false)

/-- `mark_items_deleted`: the versions of the items are purged, the items deleted.  The
source writes in batches of 500 items; the rows of one batch do not depend on another. -/
def markItemsDeleted (cat : Catalog) (ids : List ℕ) (at_ : Stamp) : Catalog :=
  let gone := (cat.items.filter fun i => i.id ∈ ids && i.kind = .version).filterMap
    DeletionItem.archiveVersionId
  (cat.mapVersions
    (fun _ w => if w.id ∈ gone then
      { w with availability := .purged, availabilityCheckedAt := some at_ } else w)
    ⟨fun _ _ => by split <;> rfl, fun _ _ => by split <;> rfl,
      fun _ _ => by split <;> rfl⟩).mapItems
    fun i => if i.id ∈ ids then { i with status := .deleted } else i

/-- `mark_items_failed`. -/
def markItemsFailed (cat : Catalog) (ids : List ℕ) : Catalog :=
  cat.mapItems fun i => if i.id ∈ ids then { i with status := .failed } else i

/-- `bool(items) and all(i["status"] == "deleted" for i in items)`. -/
def purgeCompleted (cat : Catalog) (job : JobId) : Bool :=
  let items := cat.items.filter fun i => i.jobId = job
  items ≠ [] && items.all fun i => i.status = .deleted

/-- `finalize_purge_job`. -/
def finalizePurgeJob (cat : Catalog) (job : JobId) (file : FileId) : Option Catalog := do
  let completed := purgeCompleted cat job
  guard (cat.jobs.any fun j => j.id = job)
  let done := cat.mapJobs (fun j => if j.id = job then
      { j with status := if completed then .completed else .failed } else j)
    fun j => by split <;> rfl
  if completed ∧ ((cat.file? file).map versionTargets).getD [] = [] then
    some (done.mapFiles (fun f => if f.id = file then { f with status := .purged } else f)
      (fun f => by split <;> rfl) (fun f => by split <;> rfl) (fun f => by split <;> rfl)
      fun f => by split <;> exact List.Sublist.refl _)
  else some done

/-! ### The lease of the worker -/

/-- `_claim_is_available`: no live claim is held on the Job. -/
def Job.claimAvailable (j : Job) (now : Stamp) : Bool :=
  j.claimToken.isNone || j.claimExpiresAt.isNone || j.claimExpiresAt.any (· ≤ now)

/-- `_purge_job_is_runnable`. -/
def Job.purgeRunnable (j : Job) (now : Stamp) : Bool :=
  j.status = .queued || (j.status = .pendingDelay && j.pendingUntil.any (· ≤ now))

/-- `claim_purge_group`: every active member is leased, or none. -/
def claimPurgeGroup (cat : Catalog) (lead : JobId) (token : ℕ) (now expires : Stamp) :
    Option Catalog := do
  let job ← cat.jobs.find? fun j => j.id = lead && j.action = .cloudPurge
  let g ← job.groupId
  let active := activePurges cat job.vaultId g
  guard (active ≠ [] ∧ ∀ j ∈ active, j.claimAvailable now ∧ j.purgeRunnable now)
  some (cat.mapJobs (fun j => if j.id ∈ active.map Job.id then
      { j with status := .cleaning, claimToken := some token, claimExpiresAt := some expires }
    else j) fun j => by split <;> rfl)

/-! ### Restart reconciliation -/

/-- `_reconcile_job_transition`: only a Job without a live claim is moved. -/
def reconcileJobTransition (cat : Catalog) (job : JobId) (st : JobStatus) (now : Stamp) :
    Catalog :=
  cat.mapJobs (fun j => if j.claimAvailable now ∧ j.id = job ∧ j.status.terminal = false then
    j.settle st else j) fun j => by split <;> rfl

/-- The same decision for a list of Jobs. -/
def reconcileJobTransitions (cat : Catalog) (jobs : List Job) (st : JobStatus) (now : Stamp) :
    Catalog :=
  (jobs.map Job.id).foldl (fun cat job => reconcileJobTransition cat job st now) cat

/-- `_object_version_entries`: the `VersionId`s of the versions and of the delete markers of a
key, or `none` when the provider does not answer. -/
abbrev ProviderListing := ObjectKey → Option (List ProviderVersionId × List ProviderVersionId)

/-- The group may be reconciled: it has an interrupted member and no member is leased or in
another state. -/
def groupReconcilable (cat : Catalog) (v : VaultId) (g : GroupId) (now : Stamp) : Bool :=
  let active := activePurges cat v g
  active.all (fun j => j.claimAvailable now) &&
  active.all (fun j => j.status = .cleaning || j.status = .queued) &&
  active.any fun j => j.status = .cleaning

/-- The interrupted members of a group. -/
def interruptedPurges (cat : Catalog) (v : VaultId) (g : GroupId) : List Job :=
  (purgeGroup cat v g).filter fun j => j.status = .cleaning

/-- The open items of the interrupted members. -/
def openItems (cat : Catalog) (v : VaultId) (g : GroupId) : List DeletionItem :=
  cat.items.filter fun i => i.jobId ∈ (interruptedPurges cat v g).map Job.id &&
    (i.status = .pending || i.status = .failed)

/-- Whether the provider still lists the target of an item. -/
def listed (listing : ProviderListing) (i : DeletionItem) : Option Bool :=
  (listing i.objectKey).map fun (versions, markers) =>
    i.providerVersionId ∈ if i.kind = .version then versions else markers

/-- `_reconcile_cloud_purge_group` for a group with an id; `none` when the provider does not
answer. -/
def reconcileCloudPurgeGroup (listing : ProviderListing) (cat : Catalog) (v : VaultId)
    (g : GroupId) (now : Stamp) : Option Catalog :=
  if !groupReconcilable cat v g now then some cat
  else
    let jobs := interruptedPurges cat v g
    let items := openItems cat v g
    if items.any fun i => i.status = .failed then
      some (reconcileJobTransitions cat jobs .failed now)
    else if items.all fun i => (listed listing i).isSome then
      let gone := items.filter fun i => listed listing i = some false
      some (reconcileJobTransitions (markItemsDeleted cat (gone.map DeletionItem.id) now) jobs
        .queued now)
    else none

/-- The purge branch of `_reconcile_interrupted_jobs_impl` for one interrupted group: an
exception, also a missing group id, fails its stale members. -/
def reconcileInterruptedPurge (listing : ProviderListing) (cat : Catalog) (lead : JobId)
    (now : Stamp) : Option Catalog := do
  let job ← cat.jobs.find? fun j =>
    j.id = lead && j.action = .cloudPurge && j.status = .cleaning && j.claimAvailable now
  match job.groupId with
  | none => some cat
  | some g =>
      match reconcileCloudPurgeGroup listing cat job.vaultId g now with
      | some cat' => some cat'
      | none =>
          let stale := (interruptedPurges cat job.vaultId g).filter fun j => j.claimAvailable now
          some (reconcileJobTransitions cat stale .failed now)

/-! ### Steps -/

/-- One transaction of the workflow. -/
inductive PurgeAct
  | schedule (vaults : VaultTable) (v : VaultId) (sel : Selection) (requestedAt : Stamp)
      (confirmation reason : String) (origin : JobOrigin)
  | cancel (vaults : VaultTable) (v : VaultId) (g : GroupId)
  | claim (lead : JobId) (token : ℕ) (now expires : Stamp)
  | validate (vaults : VaultTable) (v : VaultId) (g : GroupId) (at_ : Stamp)
  | markDeleted (ids : List ℕ) (at_ : Stamp)
  | markFailed (ids : List ℕ)
  | finalize (job : JobId) (file : FileId)
  | reconcile (listing : ProviderListing) (lead : JobId) (now : Stamp)

/-- The catalog after the transaction; `none` when it raised, or found nothing to do. -/
def purgeStep (cat : Catalog) : PurgeAct → Option Catalog
  | .schedule vaults v sel requestedAt confirmation reason origin =>
      scheduleCloudPurge vaults cat v sel requestedAt confirmation reason origin
  | .cancel vaults v g => cancelCloudDeletion vaults cat v g
  | .claim lead token now expires => claimPurgeGroup cat lead token now expires
  | .validate vaults v g at_ => (validateExecution vaults cat v g at_).map Prod.fst
  | .markDeleted ids at_ => some (markItemsDeleted cat ids at_)
  | .markFailed ids => some (markItemsFailed cat ids)
  | .finalize job file => finalizePurgeJob cat job file
  | .reconcile listing lead now => reconcileInterruptedPurge listing cat lead now

end Frostvault
