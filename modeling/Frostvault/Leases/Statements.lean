import Frostvault.Leases.Fencing
import Frostvault.Lib.ReadCommitted
import Mathlib.Data.Rat.Init

/-!
The writers of `jobs.status` as transactions of statements (`app/storage.py`, `app/main.py`,
`app/catalog.py` and `app/services/cloud_deletion.py`).

Each takes the locks its source takes, re-checks in its `UPDATE` what its source re-checks
there, and knows the rest from the `SELECT` before it.  What a writer finds in other tables,
on disk or at the provider is an argument.

* `setJobTxn`, `scheduleUploadRetryTxn`, `holdForApprovalTxn`: a worker under its claim;
* `cancelJobGroupTxn`, `cancelCloudDeletionTxn`, `approveRecoverTxn`: the Owner;
* `reconcileInterruptedJobsTxn`: the sweep over expired leases, one transaction;
* `validateExecutionTxn`, `finalizePurgeTxn`, `releasePreflightPurgeClaimTxn`: a purge worker;
* `claimJobTxn`, `claimPurgeGroupTxn`, `renewJobClaimTxn`, `setJobProgressTxn`: claims.
-/

namespace Frostvault

open ReadCommitted

/-! ### Rows and locks -/

/-- A row of `jobs` with the columns of a restore estimate and of its approval. -/
structure JobRecord extends JobRow where
  restoreTier : Option String
  restoreDays : Option ℕ
  estimatedCostEur : Option ℚ
  estimatedHours : Option ℚ
  approvedBy : Option ℕ
  approvedAt : Option Stamp
deriving DecidableEq, Repr

/-- The primary key. -/
abbrev JobRecord.key (j : JobRecord) : JobId := j.id

/-- A write of the columns the other modules know. -/
def JobRecord.mapRow (f : JobRow → JobRow) (j : JobRecord) : JobRecord :=
  { j with toJobRow := f j.toJobRow }

/-- What is locked besides the rows of `jobs`: a Vault's row, which the admission of work
locks too. -/
abbrev JobLock := VaultId

/-- A transaction on `jobs`. -/
abbrev JobTxn := Txn JobRecord.key JobLock

namespace JobTxn

/-- `SELECT .. FROM jobs WHERE p`. -/
def selectJobs (p : JobRow → Bool) (next : List JobRecord → JobTxn) : JobTxn :=
  .select (fun j => p j.toJobRow) next

/-- `SELECT .. FROM jobs WHERE p FOR UPDATE`. -/
def lockJobs (p : JobRow → Bool) (next : List JobRecord → JobTxn) : JobTxn :=
  .update (fun j => p j.toJobRow) (fun j => j) (fun _ => rfl) next

/-- `UPDATE jobs SET f WHERE p RETURNING ..`. -/
def updateJobs (p : JobRow → Bool) (f : JobRow → JobRow) (hid : ∀ j, (f j).id = j.id)
    (next : List JobRecord → JobTxn) : JobTxn :=
  .update (fun j => p j.toJobRow) (JobRecord.mapRow f) (fun j => hid j.toJobRow) next

/-- The `UPDATE` is the last statement. -/
def finish (_ : List JobRecord) : JobTxn := .commit

/-- `SELECT id FROM vaults WHERE id=(SELECT vault_id FROM jobs WHERE id=..) FOR NO KEY UPDATE`. -/
def lockVaultOf (job : JobId) (next : JobTxn) : JobTxn :=
  selectJobs (fun j => j.id = job) fun rows =>
    match rows with
    | [] => next
    | j :: _ => .lock j.vaultId next

/-! ### Workers -/

/-- `set_job`; the row it reads before it writes is for the counters. -/
def setJobTxn (ctx : WorkerContext) (job : JobId) (status : JobStatus) (message : JobMessage)
    (timestamp : Stamp) : JobTxn :=
  if ctx.claimIsLost job then .rollback
  else lockVaultOf job <| selectJobs (fun j => j.id = job) fun _ =>
    match ctx.claimTokenFor job with
    | some token =>
        updateJobs (fun j => j.id = job && j.ownedBy token timestamp)
          (fun j => if status.leaseHeld
            then (j.report status message timestamp).extend (claimExpiryAt timestamp)
            else (j.report status message timestamp).dropClaim)
          (JobTable.reported_id status message timestamp) finish
    | none =>
        updateJobs (fun j => j.id = job) (fun j => j.report status message timestamp)
          JobRow.same_id finish

/-- `schedule_upload_retry`. -/
def scheduleUploadRetryTxn (ctx : WorkerContext) (job : JobId) (message : JobMessage)
    (retryCount : ℕ) (retryAfter timestamp : Stamp) : JobTxn :=
  if ctx.claimIsLost job then .rollback
  else lockVaultOf job <| selectJobs (fun j => j.id = job) fun _ =>
    match ctx.claimTokenFor job with
    | some token =>
        updateJobs (fun j => j.id = job && j.ownedBy token timestamp)
          (fun j => (JobTable.retry j message retryCount retryAfter timestamp).dropClaim)
          JobRow.same_id finish
    | none =>
        updateJobs (fun j => j.id = job)
          (fun j => JobTable.retry j message retryCount retryAfter timestamp) JobRow.same_id finish

/-- A `RestoreEstimate`, as far as a held Job records it. -/
structure RestoreEstimate where
  tier : String
  days : ℕ
  estimatedCostEur : ℚ
  estimatedHours : Option ℚ

/-- The columns of a restore that is held. -/
def heldForApproval (j : JobRecord) (pendingUntil : Stamp) (estimate : RestoreEstimate)
    (timestamp : Stamp) : JobRecord :=
  { j with
    toJobRow := { j.toJobRow.dropClaim with
      status := .pendingApproval
      message := ⟨"High-impact Glacier restore held for primary-owner approval; " ++
        "RestoreObject cannot be cancelled after AWS accepts it", j.message.key,
        j.message.params⟩
      pendingUntil := some pendingUntil
      updatedAt := timestamp }
    restoreTier := some estimate.tier
    restoreDays := some estimate.days
    estimatedCostEur := some estimate.estimatedCostEur
    estimatedHours := estimate.estimatedHours }

/-- `process_recover`, where it holds a restore of high impact. -/
def holdForApprovalTxn (ctx : WorkerContext) (job : JobId) (pendingUntil : Stamp)
    (estimate : RestoreEstimate) (timestamp : Stamp) : JobTxn :=
  .update (fun j => j.id = job && match ctx.claimTokenFor job with
      | some token => j.ownedBy token timestamp
      | none => true)
    (fun j => heldForApproval j pendingUntil estimate timestamp) (fun _ => rfl) finish

/-! ### The Owner -/

/-- `_cancel_rows` on the Jobs: one `UPDATE` by id for each. -/
def cancelRows (reason : String) (timestamp : Stamp) (next : JobTxn) : List JobId → JobTxn
  | [] => next
  | job :: jobs =>
      updateJobs (fun j => j.id = job) (fun j => JobTable.cancelled j reason timestamp)
        (fun _ => rfl) fun _ => cancelRows reason timestamp next jobs

/-- The ids of some rows. -/
abbrev ids (rows : List JobRecord) : List JobId := rows.map JobRecord.key

/-- `cancel_cloud_deletion`, in the transaction of `cancel_job_group`. -/
def cancelCloudDeletionTxn (v : VaultId) (g : GroupId) (timestamp : Stamp) : JobTxn :=
  .lock v <| .lock v <| lockJobs (JobTable.inPurgeGroup v g) fun rows =>
    if rows = [] ∨ ∃ j ∈ rows, j.status ≠ .pendingDelay ∨ j.claimToken.isSome then .rollback
    else cancelRows "Cancelled before deletion started" timestamp .commit (ids rows)

/-- `cancel_job_group`: the rows it selected are checked again in its `UPDATE`. -/
def cancelJobGroupTxn (translate : String → String) (v : VaultId) (g : GroupId)
    (action : JobAction) (timestamp : Stamp) : JobTxn :=
  match JobTable.cancelMessageKey action with
  | none => .rollback
  | some messageKey =>
      if action = .cloudPurge then cancelCloudDeletionTxn v g timestamp
      else .lock v <| selectJobs (fun j => j.vaultId = v && j.groupId = some g &&
          j.action = action && !j.status.terminal) fun rows =>
        if rows = [] then .rollback
        else updateJobs (fun j => j.id ∈ ids rows && !j.status.terminal)
          (fun j => { j with
            status := .cancelled
            message := ⟨translate messageKey, some messageKey, some "\x7b\x7d"⟩
            updatedAt := timestamp }) JobRow.same_id finish

/-- The columns of a restore that was approved. -/
def approved (j : JobRecord) (user : ℕ) (timestamp : Stamp) : JobRecord :=
  { j with
    toJobRow := { j.toJobRow with
      status := .queued
      message := ⟨"High-impact restore approved; " ++
        "RestoreObject cannot be cancelled after AWS accepts it", j.message.key,
        j.message.params⟩
      updatedAt := timestamp }
    approvedBy := some user
    approvedAt := some timestamp }

/-- `approve_recover`: the status is checked where the Jobs are selected, and not again where
they are updated; no lock is taken before. -/
def approveRecoverTxn (v : VaultId) (g : GroupId) (user : ℕ) (timestamp : Stamp) : JobTxn :=
  selectJobs (fun j => j.vaultId = v && j.groupId = some g && j.action = .recover &&
      j.status = .pendingApproval) fun rows =>
    if rows = [] then .rollback
    else .update (fun j => j.id ∈ ids rows) (fun j => approved j user timestamp) (fun _ => rfl)
      finish

/-! ### Restart reconciliation -/

/-- `_INTERRUPTED_JOB_SQL`. -/
def interrupted (j : JobRow) : Bool :=
  match j.action with
  | .recover => j.status = .downloading || j.status = .verifying
  | .upload => j.status = .uploading || j.status = .verifying
  | .rename => j.status = .uploading || j.status = .verifying || j.status = .cleaning
  | .freeSpace => j.status = .cleaning
  | .storageClass => j.status = .uploading
  | .cloudPurge => j.status = .cleaning
  | .cloudArchive => false

/-- `EXPIRED_LEASE_RECONCILE_BATCH`. -/
def expiredLeaseReconcileBatch : ℕ := 100

/-- The arguments of one `_reconcile_job_transition`. -/
structure RestartDecision where
  status : JobStatus
  progress : JobTable.ProgressChange
  message : String

/-- What the sweep finds on disk, in the catalog and at the provider: for a Job the transitions
it asks for (none while the Source Volume is absent, a second one after an exception), for a
group its outcome and message, or the exception. -/
structure RestartFindings where
  ofJob : JobRow → List RestartDecision
  ofGroup : JobRow → Except String (JobTable.PurgeOutcome × String)

/-- `_reconcile_job_transition`. -/
def reconcileJobTransition (job : JobId) (d : RestartDecision) (timestamp : Stamp)
    (next : JobTxn) : JobTxn :=
  updateJobs (fun j => j.claimAvailable timestamp && j.id = job && !j.status.terminal)
    (fun j => JobTable.reconciled j d.status d.progress d.message timestamp) (fun _ => rfl)
    fun _ => next

/-- Some transitions, one after the other. -/
def transitions (timestamp : Stamp) (next : JobTxn) : List (JobId × RestartDecision) → JobTxn
  | [] => next
  | (job, d) :: ds => reconcileJobTransition job d timestamp (transitions timestamp next ds)

/-- The exception branch of the sweep for a group. -/
def failStalePurgesTxn (lead : JobRow) (exc : String) (timestamp : Stamp) (next : JobTxn) :
    JobTxn :=
  selectJobs (fun j => lead.groupId.any (fun g => JobTable.inPurgeGroup lead.vaultId g j) &&
      j.status = .cleaning && j.claimAvailable timestamp) fun rows =>
    transitions timestamp next <| (ids rows).map fun job =>
      (job, ⟨.failed, .keep, "Post-restart reconciliation failed: " ++ exc⟩)

/-- `_reconcile_cloud_purge_group`; what it raises is handled by the sweep. -/
def reconcileCloudPurgeGroup (findings : RestartFindings) (lead : JobRow) (timestamp : Stamp)
    (next : JobTxn) : JobTxn :=
  match lead.groupId with
  | none => failStalePurgesTxn lead "Cloud purge is missing its group identity" timestamp next
  | some g =>
      selectJobs (fun j => JobTable.inPurgeGroup lead.vaultId g j && !j.status.terminal)
        fun active =>
          if active = [] ∨ (∃ j ∈ active, ¬ j.claimAvailable timestamp) ∨
              ∃ j ∈ active, j.status ≠ .cleaning ∧ j.status ≠ .queued then next
          else match findings.ofGroup lead with
            | .error exc => failStalePurgesTxn lead exc timestamp next
            | .ok (outcome, message) =>
                transitions timestamp next <|
                  (ids (active.filter fun j => j.status = .cleaning)).map fun job =>
                    (job, ⟨if outcome = .failed then .failed else .queued, .keep, message⟩)

/-- The loop of `_reconcile_interrupted_jobs_impl`; a group is reconciled once. -/
def reconcileJobs (findings : RestartFindings) (timestamp : Stamp) :
    List (VaultId × Option GroupId) → List JobRow → JobTxn
  | _, [] => .commit
  | seen, j :: js =>
      if j.action = .cloudPurge then
        if (j.vaultId, j.groupId) ∈ seen then reconcileJobs findings timestamp seen js
        else reconcileCloudPurgeGroup findings j timestamp
          (reconcileJobs findings timestamp ((j.vaultId, j.groupId) :: seen) js)
      else transitions timestamp (reconcileJobs findings timestamp seen js) <|
        (findings.ofJob j).map fun d => (j.id, d)

/-- `_reconcile_interrupted_jobs_impl`, in one transaction. -/
def reconcileInterruptedJobsTxn (findings : RestartFindings) (timestamp : Stamp) : JobTxn :=
  selectJobs (fun j => interrupted j && j.claimAvailable timestamp) fun rows =>
    reconcileJobs findings timestamp [] <|
      ((rows.map fun j => j.toJobRow).insertionSort JobTable.requestedBefore).take
        expiredLeaseReconcileBatch

/-! ### Purge workers -/

/-- `renew_purge_group_claim`; its callers raise unless exactly the expected Jobs were
renewed. -/
def renewPurgeGroupClaimTxn (v : VaultId) (g : GroupId) (token : Token) (expected : List JobId)
    (now expires : Stamp) (next : JobTxn) : JobTxn :=
  updateJobs (JobTable.claimedPurge v g token now) (fun j => j.extend expires) JobRow.same_id
    fun renewed =>
      if (∀ job ∈ ids renewed, job ∈ expected) ∧ ∀ job ∈ expected, job ∈ ids renewed then next
      else .rollback

/-- `_release_preflight_purge_claim`. -/
def releasePreflightPurgeClaimTxn (v : VaultId) (g : GroupId) (token : Token) (now : Stamp) :
    JobTxn :=
  updateJobs (JobTable.claimedPurge v g token now)
    (fun j => { j.dropClaim with status := .queued }) JobRow.same_id finish

/-- `validate_execution`, followed by `next` when the consent holds; `verdict` is the reason to
revoke it that the catalog, the disk and the policies give for the active Jobs. -/
def validateExecutionTxn (v : VaultId) (g : GroupId) (verdict : List JobRecord → Option String)
    (timestamp : Stamp) (next : JobTxn) : JobTxn :=
  .lock v <| lockJobs (JobTable.inPurgeGroup v g) fun rows =>
    let active := rows.filter fun j => !j.status.terminal
    match if active = [] then some "Deletion authority is no longer active" else verdict active with
    | some reason => cancelRows reason timestamp .commit (ids active)
    | none => next

/-- The columns `finalize_purge_job` sets. -/
def purgeFinalized (j : JobRow) (completed : Bool) (timestamp : Stamp) : JobRow :=
  { j with
    status := if completed then .completed else .failed
    message := ⟨if completed then "Cloud deletion completed" else "Cloud deletion partially failed",
      j.message.key, j.message.params⟩
    updatedAt := timestamp
    transferredBytes := if completed then j.totalBytes else j.transferredBytes }

/-- `finalize_purge_job` for each Job of the group, by id. -/
def finalizePurgeJobs (completed : JobId → Bool) (timestamp : Stamp) (next : JobTxn) :
    List JobId → JobTxn
  | [] => next
  | job :: jobs =>
      updateJobs (fun j => j.id = job) (fun j => purgeFinalized j (completed job) timestamp)
        (fun _ => rfl) fun _ => finalizePurgeJobs completed timestamp next jobs

/-- The last transaction of `process_cloud_purge`; `completed` says whether the items of a Job
are all deleted. -/
def finalizePurgeTxn (v : VaultId) (g : GroupId) (token : Token) (expected : List JobId)
    (completed : JobId → Bool) (stamp : Stamp) : JobTxn :=
  renewPurgeGroupClaimTxn v g token expected stamp (claimExpiryAt stamp) <|
    finalizePurgeJobs completed stamp (updateJobs
      (fun j => j.id ∈ expected && j.status.terminal) JobRow.dropClaim (fun _ => rfl) finish)
      expected

/-! ### Claims -/

/-- `claim_job`.  The condition on the peers of a purge does not arise, since the Job is none. -/
def claimJobTxn (autoUpload : VaultId → Option Bool) (job : JobId) (token : Token)
    (claimedAt expires now restoreDueBefore : Stamp) : JobTxn :=
  updateJobs (fun j => j.id = job && j.action ≠ .cloudPurge &&
      JobTable.empty.claimableJob autoUpload j now restoreDueBefore)
    (fun j => j.lease token claimedAt expires) JobRow.same_id finish

/-- `claim_purge_group`; `acquired` is the answer of `pg_try_advisory_xact_lock`. -/
def claimPurgeGroupTxn (lead : JobId) (token : Token) (claimedAt expires now : Stamp)
    (message messageKey : String) (acquired : Bool) : JobTxn :=
  selectJobs (fun j => j.id = lead && j.action = .cloudPurge) fun leads =>
    match leads.head?.bind fun j => j.groupId.map fun g => (j.vaultId, g) with
    | none => .commit
    | some (v, g) =>
        if acquired then
          lockJobs (JobTable.inPurgeGroup v g) fun rows =>
            let active := rows.filter fun j => !j.status.terminal
            if active = [] ∨ ∃ j ∈ active, ¬ (j.claimAvailable now ∧ j.purgeRunnable now) then
              .commit
            else updateJobs (fun j => j.id ∈ ids active)
              (fun j => j.startPurge token claimedAt expires message messageKey)
              (fun j => j.startPurge_id token claimedAt expires message messageKey) finish
        else .commit

/-- `renew_job_claim`. -/
def renewJobClaimTxn (job : JobId) (token : Token) (now expires : Stamp) : JobTxn :=
  updateJobs (fun j => j.id = job && j.ownedBy token now) (fun j => j.extend expires)
    JobRow.same_id finish

/-- `set_job_progress` under a claim. -/
def setJobProgressTxn (job : JobId) (token : Token) (transferredBytes : ℤ)
    (timestamp : Stamp) : JobTxn :=
  updateJobs (fun j => j.id = job && j.ownedBy token timestamp)
    (fun j => { (j.extend (claimExpiryAt timestamp)) with
      transferredBytes := (max 0 transferredBytes).toNat
      updatedAt := timestamp }) JobRow.same_id finish

end JobTxn

end Frostvault
