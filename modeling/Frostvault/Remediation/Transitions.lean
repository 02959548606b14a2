import Frostvault.Remediation.Admission
import Frostvault.Remediation.Voidness

/-!
What becomes of an episode (`app/services/upload_remediation.py`): its attempt changes status, is
re-armed, finishes its cleanup, or an ordinary upload resolves it; and the steps of a worker
that leave episodes behind.

* `releaseForRearm`, `recordCleanup`, `resolveVoid`, `transition`: the functions of the ledger;
* `setJob`, `cancelUpload`, `metadataRestore`: who calls `transition`, and who does not;
* `prepareSend`, `startSend`, `rearm`: the transactions of a worker around a send.

A lease may be lost at any moment, so its clock is left out.
-/

namespace Frostvault

open Checks

/-! ### Rows -/

/-- The attempt of the episode may send. -/
def Episode.rearmed (stamp : Stamp) (e : Episode) : Episode :=
  { e with
    state := .queued
    phase := .upload
    reason := none
    updatedAt := stamp }

/-- The episode is open and the Job is its current attempt. -/
def Episode.attemptedBy (job : JobId) (e : Episode) : Bool :=
  e.jobs.contains job && e.currentJobId = some job && e.state ≠ .resolved

lemma remediation_rearmed (job : JobId) (stamp : Stamp) (e : Episode) :
    (if e.attemptedBy job then e.rearmed stamp else e).remediation =
      if e.remediation.jobs.contains job && e.remediation.currentJobId = some job &&
          e.remediation.state ≠ .resolved then e.remediation.rearmed
      else e.remediation := by
  by_cases h : e.attemptedBy job
  · rw [if_pos h]
    exact (if_pos h).symm
  · rw [if_neg h]
    exact (if_neg h).symm

/-- The columns of a resolution. -/
def Episode.resolve (stamp : Stamp) (job : JobId) (version : RowId) (cleanup : JobId)
    (linked : Bool) (e : Episode) : Episode :=
  { e with
    state := .resolved
    phase := .completed
    reason := none
    currentJobId := some job
    resolvedByJobId := some job
    resolvedAt := some stamp
    archiveVersionId := some version
    cleanupInventoryJobId := some cleanup
    updatedAt := stamp
    -- `ON CONFLICT (job_id) DO NOTHING`
    jobs := if linked then e.jobs else e.jobs ++ [job] }

namespace Ledger

/-! ### `release_for_rearm`, `record_cleanup` -/

/-- **`release_for_rearm`**. -/
def releaseForRearm (L : Ledger) (job : WorkerJob) (stamp : Stamp) : Ledger :=
  { L with
    db := Frostvault.releaseForRearm L.db job
    episodes := L.episodes.map fun e =>
      if e.attemptedBy job.row.id then e.rearmed stamp else e
    sees := by
      have hrem : ∀ g h, (L.db.mapJobs g h).remediations = L.episodes.map Episode.remediation :=
        fun _ _ => L.sees
      unfold Frostvault.releaseForRearm
      dsimp only
      split <;> simp only [hrem, L.sees, List.map_map, Function.comp_def, remediation_rearmed]
    ids_nodup := by
      have hid : Episode.id ∘ (fun e : Episode =>
          if e.attemptedBy job.row.id then e.rearmed stamp else e) = Episode.id := by
        funext e
        simp only [Function.comp_apply]
        split <;> rfl
      rw [List.map_map, hid]
      exact L.ids_nodup }

/-- **`record_cleanup`**. -/
def recordCleanup (L : Ledger) (job inventory : JobId) : Ledger :=
  L.mapEpisodes
    (fun e =>
      if e.jobs.contains job && e.currentJobId = some job then
        { e with
          cleanupInventoryJobId := some inventory
          phase := .completion }
      else e)
    fun e => by split <;> rfl

/-! ### `resolve_void` -/

/-- The checkpoint of a finished cleanup for a keeper, the latest one. -/
def finishedCleanup (L : Ledger) (keeper : RowId) : Option CleanupCheckpoint :=
  (L.cleanups.filter fun c => c.keeperId = some keeper && c.completedAt.isSome).foldl
    (fun best c => match best with
      | some b => if b.completedAt.getD 0 < c.completedAt.getD 0 then some c else some b
      | none => some c) none

/-- The void episode of a file that an ordinary upload may resolve: the oldest one. -/
def resolvableVoid (L : Ledger) (file : FileId) : Option Episode :=
  (L.unresolved file).find? fun e => e.state ≠ .cancelled && e.archiveVersionId.isNone &&
    e.resolvedByJobId.isNone && L.voidSql e &&
    e.currentJobId.all fun id => (L.db.cat.job? id).any fun j => j.status.terminal

/-- **`resolve_void`**. -/
def resolveVoid (L : Ledger) (job : JobId) (stamp : Stamp) : LedgerOutcome Ledger :=
  match L.db.cat.job? job with
  | none => .ok L
  | some j =>
      if j.action ≠ .upload then .ok L
      else
        match j.archiveVersionId with
        | none => .ok L
        | some v =>
            match L.finishedCleanup v with
            | none => .ok L
            | some c =>
                if (L.db.cat.version? v).any fun w => w.integrity = .verified then
                  match L.resolvableVoid j.vaultFileId with
                  | none => .ok L
                  | some e => L.writeEpisode e.id
                      (Episode.resolve stamp job v c.jobId (L.episodeOf? job).isSome) fun _ => rfl
                else .ok L

/-! ### `transition` -/

/-- The Job as a row without its lease. -/
def bare (j : Job) : WorkerJob := ⟨j, 0, "", "", ""⟩

/-- The phase the Job has reached with its version. -/
def reachedPhase (L : Ledger) (j : Job) (e : Episode) : RemediationPhase :=
  match j.archiveVersionId with
  | none => e.phase
  | some v =>
      if (L.db.cat.version? v).any fun w => w.integrity = .verified then
        if L.cleanups.any fun c => e.cleanupInventoryJobId = some c.jobId &&
            c.keeperId = some v && c.completedAt.isSome then .completion
        else .cleanup
      else .verification

/-- The exact cleanup a completion requires. -/
def CleanedUp (L : Ledger) (j : Job) (e : Episode) : Prop :=
  (j.uploadReconcileOnly ∨ provenAbsent L.db e.intentId) ∧ j.archiveVersionId.isSome ∧
    (∃ c ∈ L.cleanups, e.cleanupInventoryJobId = some c.jobId ∧
      c.keeperId = j.archiveVersionId ∧ c.completedAt.isSome) ∧
    (loadForJob L.db j.id).all UploadIntent.settled

instance (L : Ledger) (j : Job) (e : Episode) : Decidable (L.CleanedUp j e) := by
  unfold CleanedUp
  infer_instance

/-- The state and the reason a status leads to. -/
def nextState (L : Ledger) (j : Job) (e : Episode) (status : JobStatus)
    (suspension : Option BlockReason) : RemediationState × Option EpisodeReason :=
  if e.state = .cancelled ∧ status ≠ .completed then
    (.cancelled, some (.remedy .ownerCancelled))
  else
    match status, suspension with
    | .completed, _ => (.resolved, none)
    | .failed, _ => (.blocked,
        match L.block? e.vaultFileId with
        | some b => some (.remedy b.reason)
        | none => some (if retryBudget ≤ (L.jobColumns j.id).retryCount then .retryBudgetExhausted
            else .operationFailed))
    | .cancelled, _ => (.cancelled, some (.remedy .ownerCancelled))
    | .retrying, _ => (.retrying, some .transient)
    | _, some r => (.suspended, some (.remedy r))
    | .uploading, none => (.queued, none)
    | .verifying, none => (.queued, none)
    | _, none => (e.state, e.reason)

/-- The columns `transition` writes. -/
def transitioned (L : Ledger) (j : Job) (status : JobStatus) (stamp : Stamp)
    (suspension : Option BlockReason) (e : Episode) : Episode :=
  let (state, reason) := L.nextState j e status suspension
  { e with
    state := state
    phase := if status = .completed then .completed else L.reachedPhase j e
    reason := reason
    retryCount := max e.retryCount (L.jobColumns j.id).retryCount
    dueAt := ((L.jobColumns j.id).retryAfter).getD stamp
    updatedAt := stamp
    archiveVersionId := e.archiveVersionId <|> j.archiveVersionId
    resolvedByJobId := if state = .resolved then e.resolvedByJobId <|> some j.id
      else e.resolvedByJobId
    resolvedAt := if state = .resolved then e.resolvedAt <|> some stamp else e.resolvedAt }

/-- **`transition`**, in the transaction that writes the status of the Job. -/
def transition (L : Ledger) (job : JobId) (status : JobStatus) (stamp : Stamp)
    (suspension : Option BlockReason) : LedgerOutcome Ledger :=
  match L.episodeOf? job, L.db.cat.job? job with
  | some e, some j => do
      require (e.currentJobId = some job) .staleAttempt
      require (e.state = .resolved → status = .completed ∧ e.resolvedByJobId = some job)
        .completedHistory
      if status = .completed then do
        if e.state ≠ .resolved then lifted (requireJob L.db (bare j))
        require (L.CleanedUp j e) .cleanupPostcondition
      L.writeEpisode e.id (L.transitioned j status stamp suspension) fun _ => rfl
  -- the Job of an attempt is there by its foreign key
  | _, _ =>
      if status = .failed then .ok (L.captureFailure job stamp)
      else if status = .completed then L.resolveVoid job stamp
      else .ok L

/-! ### Jobs change status -/

/-- The columns of a status change. -/
def writeStatus (L : Ledger) (job : JobId) (status : JobStatus) (stamp : Stamp) : Ledger :=
  { L.withJournal (L.db.updateJob job (fun j => { j with status := status }) fun _ => rfl) with
    jobColumns := Function.update L.jobColumns job
      { L.jobColumns job with updatedAt := stamp } }

/-- **`set_job`** for an upload: a worker's claim makes it a compare-and-swap. -/
def setJob (L : Ledger) (claim : Option ℕ) (job : JobId) (status : JobStatus) (stamp : Stamp)
    (suspension : Option BlockReason) : LedgerOutcome Ledger :=
  if L.db.cat.jobs.any fun j => j.id = job && j.action = .upload &&
      claim.all fun token => j.claimToken = some token && !j.status.terminal then
    (L.writeStatus job status stamp).transition job status stamp suspension
  else .ok L

/-- The Owner cancels an upload that is not over (`cancel_active_job_group`, `app/main.py`). -/
def cancelUpload (L : Ledger) (job : JobId) (stamp : Stamp) : LedgerOutcome Ledger :=
  if L.db.cat.jobs.any fun j => j.id = job && j.action = .upload && !j.status.terminal then
    (L.writeStatus job .cancelled stamp).transition job .cancelled stamp none
  else .ok L

/-- What `record_metadata_restore` (`app/services/recovery_kit.py`) does to the Jobs: all that
are not over are cancelled, and no episode is told. -/
def metadataRestore (L : Ledger) (stamp : Stamp) : Ledger :=
  { L.withJournal (L.db.mapJobs (fun j => if j.status.terminal then j
      else { j with status := .cancelled, claimToken := none, claimExpiresAt := none })
      fun j => by split <;> rfl) with
    jobColumns := fun id =>
      if (L.db.cat.job? id).any fun j => !j.status.terminal then
        { L.jobColumns id with updatedAt := stamp }
      else L.jobColumns id }

/-! ### A worker sends -/

/-- `prepare`. -/
def prepareSend (L : Ledger) (job : WorkerJob) (p : Prepared) (at_ : Stamp) :
    LedgerOutcome (Ledger × UploadIntent) := do
  let (intent, db) ← lifted (prepare L.db job p at_)
  pure (L.withJournal db, intent)

/-- `mark_send_started`, with the fact it captures. -/
def startSend (L : Ledger) (job : WorkerJob) (intent : UploadIntent) (stamp : Stamp) :
    LedgerOutcome Ledger := do
  let db ← lifted (markSendStarted L.db job intent)
  pure ((L.withJournal db).captureIntent stamp intent.id)

/-- `_rearm_after_proven_absence` (`app/storage.py`): the intent is closed as a write that never
happened, and the attempt may send. -/
def rearm (L : Ledger) (job : WorkerJob) (key : ObjectKey) (intent : UploadIntent)
    (stamp : Stamp) : LedgerOutcome Ledger := do
  let db ← lifted (uploadCatalogUnit L.db job key (recordNoWrite L.db job intent "ProvenAbsent"))
  let L := { L.withJournal db with
    blocks := L.blocks.filter fun b => b.vaultFileId ≠ job.row.vaultFileId }
  pure (L.releaseForRearm job stamp)

end Ledger

end Frostvault
