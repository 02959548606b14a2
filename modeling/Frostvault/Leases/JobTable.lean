import Frostvault.Deletion.CloudDeletion

/-!
The rows of `jobs` and the statements that lease them (`app/catalog.py`,
`app/storage.py`, `app/main.py` and `app/services/cloud_deletion.py`).

A writer is one conditional `UPDATE`, or a locked read followed by one; `none` is a writer
that matched no row, or raised and was rolled back.  A worker reaches the statements through
the claim its thread carries (`_job_claim_context`).

* `claimableJob`, `listClaimableJobs`: what the scheduler may pick;
* `claimJob`, `claimPurgeGroup`: a new lease, of one Job or of a whole group;
* `renewJobClaim`, `setJob`, `scheduleUploadRetry`, `setJobProgress`: the writers of a worker;
* `renewPurgeGroupClaim`, `finishPurgeGroup`, `releasePreflightPurgeClaim`: of a purge worker;
* `reconcileTransition`, `reconcilePurgeGroup`: after a lease ran out;
* `cancelJobGroup`, `cancelDeletion`, `revokeExecution`: the Owner and the consent.

The unconditional writers of the sources (a call without claim, kept for direct callers) are
the last branch of `setJob`, `scheduleUploadRetry` and `setJobProgress`.
-/

namespace Frostvault

/-! ### Rows -/

/-- The message columns of a Job. -/
structure JobMessage where
  text : String
  key : Option String
  params : Option String
deriving DecidableEq, Repr

/-- `jobs.terminal_notification_status`. -/
inductive NotificationStatus
  | pending | done
deriving DecidableEq, Repr

/-- A row of `jobs` with the columns the scheduler and the workers write. -/
structure JobRow extends Job where
  message : JobMessage
  transferredBytes : ℕ
  totalBytes : ℕ
  retryCount : ℕ
  retryAfter : Option Stamp
  updatedAt : Stamp
  claimedAt : Option Stamp
  terminalNotificationStatus : Option NotificationStatus
deriving DecidableEq, Repr

/-- A claim token: the `uuid4` of one claim. -/
abbrev Token := ℕ

/-- `JOB_CLAIM_LEASE_SECONDS`. -/
def jobClaimLeaseSeconds : ℕ := 5 * 60

/-- `_claim_expiry_at`. -/
def claimExpiryAt (timestamp : Stamp) : Stamp := timestamp + jobClaimLeaseSeconds

/-- `JOB_LEASE_HELD_STATUSES`. -/
def JobStatus.leaseHeld : JobStatus → Bool
  | .downloading | .uploading | .verifying | .cleaning => true
  | _ => false

namespace JobRow

/-- `claim_token=NULL, claimed_at=NULL, claim_expires_at=NULL`. -/
def dropClaim (j : JobRow) : JobRow :=
  { j with
    claimToken := none
    claimedAt := none
    claimExpiresAt := none }

/-- `claim_expires_at=..`. -/
def extend (j : JobRow) (expires : Stamp) : JobRow := { j with claimExpiresAt := some expires }

@[simp] lemma extend_id (j : JobRow) (expires : Stamp) : (j.extend expires).id = j.id := rfl

/-- The columns a new claim sets. -/
def lease (j : JobRow) (token : Token) (claimedAt expires : Stamp) : JobRow :=
  { j with
    claimToken := some token
    claimedAt := some claimedAt
    claimExpiresAt := some expires }

/-- The columns a claim of a group sets in each of its Jobs. -/
def startPurge (j : JobRow) (token : Token) (claimedAt expires : Stamp)
    (message messageKey : String) : JobRow :=
  { j.lease token claimedAt expires with
    status := .cleaning
    message := ⟨message, some messageKey, none⟩
    updatedAt := claimedAt }

@[simp] lemma startPurge_id (j : JobRow) (token : Token) (claimedAt expires : Stamp)
    (message messageKey : String) :
    (j.startPurge token claimedAt expires message messageKey).id = j.id := rfl

/-- A row that is rewritten column by column has its id by computation. -/
lemma same_id (j : JobRow) : j.id = j.id := rfl

/-- `status=.., message=.., updated_at=..`, with the notification a terminal outcome asks
for. -/
def report (j : JobRow) (status : JobStatus) (message : JobMessage) (timestamp : Stamp) :
    JobRow :=
  { j with
    status := status
    message := message
    updatedAt := timestamp
    terminalNotificationStatus :=
      if status = .completed ∨ status = .failed then some .pending
      else j.terminalNotificationStatus }

/-- `claim_token=.. AND claim_expires_at IS NOT NULL AND claim_expires_at > .. AND status NOT
IN (..)`: the condition of every write under a token. -/
def ownedBy (j : JobRow) (token : Token) (now : Stamp) : Bool :=
  j.claimToken = some token && j.claimExpiresAt.any (now < ·) && !j.status.terminal

end JobRow

/-- The table, with the promise of its primary key. -/
structure JobTable where
  rows : List JobRow
  ids_nodup : (rows.map fun j => j.id).Nodup

namespace JobTable

/-- The table of an empty installation. -/
def empty : JobTable := ⟨[], List.nodup_nil⟩

/-- The row of an id. -/
def row? (t : JobTable) (id : JobId) : Option JobRow := t.rows.find? fun j => j.id = id

/-- The rows an `UPDATE` matches are rewritten, the others are left. -/
def rewrite (t : JobTable) (p : JobRow → Bool) (f : JobRow → JobRow)
    (hid : ∀ j, (f j).id = j.id) : JobTable where
  rows := t.rows.map fun j => if p j then f j else j
  ids_nodup := by
    rw [List.map_map, show (fun j : JobRow => j.id) ∘ (fun j => if p j then f j else j) =
      fun j => j.id from funext fun j => by
        simp only [Function.comp_apply]
        split
        · exact hid j
        · rfl]
    exact t.ids_nodup

/-- An `UPDATE`; `none` when its `rowcount` is zero. -/
def update (t : JobTable) (p : JobRow → Bool) (f : JobRow → JobRow)
    (hid : ∀ j, (f j).id = j.id) : Option JobTable :=
  if t.rows.any p then some (t.rewrite p f hid) else none

/-- An `INSERT` of a row without claim; the id is the next of the sequence. -/
def insert (t : JobTable) (j : JobRow) : JobTable where
  rows := t.rows ++ [{ j.dropClaim with id := Catalog.fresh (t.rows.map fun k => k.id) }]
  ids_nodup := by
    rw [List.map_append, List.nodup_append]
    refine ⟨t.ids_nodup, by simp, ?_⟩
    intro a ha b hb
    simp only [List.map_cons, List.map_nil, List.mem_singleton] at hb
    rw [hb]
    exact Nat.ne_of_lt (Catalog.lt_fresh ha)

lemma mem_of_row? {t : JobTable} {id : JobId} {j : JobRow} (h : t.row? id = some j) :
    j ∈ t.rows ∧ j.id = id :=
  ⟨List.mem_of_find?_eq_some h, by simpa using List.find?_some h⟩

/-- Ids are unique, so the lookup finds the row that has the id. -/
lemma row?_eq_some_iff {t : JobTable} {id : JobId} {j : JobRow} :
    t.row? id = some j ↔ j ∈ t.rows ∧ j.id = id := by
  refine ⟨mem_of_row?, ?_⟩
  rintro ⟨hj, rfl⟩
  cases h : t.row? j.id with
  | none => simpa using List.find?_eq_none.mp h j hj
  | some k =>
      obtain ⟨hk, hid⟩ := mem_of_row? h
      rw [List.inj_on_of_nodup_map t.ids_nodup hk hj hid]

lemma row?_rewrite (t : JobTable) {p : JobRow → Bool} {f : JobRow → JobRow}
    {hid : ∀ j, (f j).id = j.id} (id : JobId) :
    (t.rewrite p f hid).row? id = (t.row? id).map fun j => if p j then f j else j := by
  have hid' : ∀ j : JobRow, (if p j then f j else j).id = j.id := fun j => by
    split
    · exact hid j
    · rfl
  cases h : t.row? id with
  | none =>
      rw [Option.map_none, row?, List.find?_eq_none]
      intro k hk
      obtain ⟨j, hj, rfl⟩ := List.mem_map.mp hk
      rw [hid' j]
      exact List.find?_eq_none.mp h j hj
  | some j =>
      obtain ⟨hj, hjd⟩ := mem_of_row? h
      rw [Option.map_some, row?_eq_some_iff]
      exact ⟨List.mem_map_of_mem hj, (hid' j).trans hjd⟩

/-- An `UPDATE` that matched a row rewrote the table. -/
lemma update_eq_some {t t' : JobTable} {p : JobRow → Bool} {f : JobRow → JobRow}
    {hid : ∀ j, (f j).id = j.id} :
    t.update p f hid = some t' ↔ (∃ j ∈ t.rows, p j) ∧ t.rewrite p f hid = t' := by
  simp [update]

/-- A new row leaves the rows there are, and has no claim. -/
lemma row?_insert (t : JobTable) (k : JobRow) (id : JobId) :
    (t.insert k).row? id = t.row? id ∨
      t.row? id = none ∧ ∃ j, (t.insert k).row? id = some j ∧ j.claimToken = none := by
  simp only [row?, insert, List.find?_append]
  cases h : t.rows.find? fun j => j.id = id with
  | some j => exact .inl rfl
  | none =>
      by_cases hk : Catalog.fresh (t.rows.map fun k => k.id) = id
      · refine .inr ⟨rfl, { k.dropClaim with id := id }, ?_, rfl⟩
        simp [hk]
      · exact .inl (by simp [hk])

/-! ### What the scheduler may pick -/

/-- `_claimable_job_status_sql`. -/
def claimableStatus (j : JobRow) (now restoreDueBefore : Stamp) : Bool :=
  j.status = .queued ||
  (j.status = .retrying && (j.retryAfter.isNone || j.retryAfter.any (· ≤ now))) ||
  (j.action = .cloudPurge && j.status = .pendingDelay && j.pendingUntil.isSome &&
    j.pendingUntil.any (· ≤ now)) ||
  ((j.action = .recover || j.action = .storageClass) && j.status = .restoring &&
    j.updatedAt ≤ restoreDueBefore)

/-- The peer of a purge Job that keeps its group from being picked: it is not runnable, or it
is leased.  Every comparison with a nullable column stands behind its `IS NOT NULL`, so the
condition is never `NULL`. -/
def purgePeerBlocks (p : JobRow) (now : Stamp) : Bool :=
  (p.status ≠ .queued &&
    !(p.status = .pendingDelay && p.pendingUntil.isSome && p.pendingUntil.any (· ≤ now))) ||
  (p.claimToken.isSome && p.claimExpiresAt.isSome && p.claimExpiresAt.any (now < ·))

/-- `_claimable_job_predicate_sql` for the row `j` of the table.  The policy is
`vault_operation_policies.auto_upload`, when the Vault has a row there. -/
def claimableJob (t : JobTable) (autoUpload : VaultId → Option Bool) (j : JobRow)
    (now restoreDueBefore : Stamp) : Bool :=
  claimableStatus j now restoreDueBefore &&
  (j.action ≠ .upload || j.origin ≠ .automatic || j.archiveVersionId.isSome ||
    (autoUpload j.vaultId).getD true) &&
  (j.claimToken.isNone || j.claimExpiresAt.isNone || j.claimExpiresAt.any (· ≤ now)) &&
  (j.action ≠ .cloudPurge || (j.groupId.isSome && !t.rows.any fun p =>
    p.vaultId = j.vaultId && p.groupId = j.groupId && p.action = .cloudPurge &&
      !p.status.terminal && purgePeerBlocks p now))

/-- What the scheduler reads of a Vault. -/
structure VaultAdmission where
  /-- `relocation_state='ready'`. -/
  ready : Bool
  enabled : Bool
  decommissionState : DecommissionState

/-- The `WHERE` of `list_claimable_jobs` on the Vault of a Job. -/
def VaultAdmission.admits (v : VaultAdmission) (j : JobRow) : Bool :=
  v.ready &&
  ((v.enabled && v.decommissionState = .active &&
      (j.origin = .manual || j.origin = .automatic)) ||
    (v.decommissionState = .decommissioning && j.origin = .stopProtection &&
      j.action = .cloudPurge))

/-- `ORDER BY requested_at, id`. -/
def requestedBefore (j k : JobRow) : Prop :=
  j.requestedAt < k.requestedAt ∨ (j.requestedAt = k.requestedAt ∧ j.id ≤ k.id)

instance : DecidableRel requestedBefore := fun _ _ => inferInstanceAs (Decidable (_ ∨ _))

/-- The candidates of the scheduler, before the limit. -/
def claimableRows (t : JobTable) (vaults : VaultId → Option VaultAdmission)
    (autoUpload : VaultId → Option Bool) (now restoreDueBefore : Stamp) : List JobRow :=
  (t.rows.filter fun j => (vaults j.vaultId).any (·.admits j) &&
    t.claimableJob autoUpload j now restoreDueBefore).insertionSort requestedBefore

/-- `list_claimable_jobs`. -/
def listClaimableJobs (t : JobTable) (vaults : VaultId → Option VaultAdmission)
    (autoUpload : VaultId → Option Bool) (now restoreDueBefore : Stamp) (limit : ℤ) :
    List JobRow :=
  if limit ≤ 0 then []
  else (t.claimableRows vaults autoUpload now restoreDueBefore).take limit.toNat

/-! ### New leases -/

/-- `claim_job`. -/
def claimJob (t : JobTable) (autoUpload : VaultId → Option Bool) (job : JobId) (token : Token)
    (claimedAt expires now restoreDueBefore : Stamp) : Option JobTable :=
  t.update (fun j => j.id = job && j.action ≠ .cloudPurge &&
      t.claimableJob autoUpload j now restoreDueBefore)
    (fun j => j.lease token claimedAt expires) JobRow.same_id

/-- The `cloud-purge` Jobs of a group that are not terminal. -/
def activePurges (t : JobTable) (v : VaultId) (g : GroupId) : List JobRow :=
  t.rows.filter fun j =>
    j.vaultId = v && j.groupId = some g && j.action = .cloudPurge && !j.status.terminal

/-- The `cloud-purge` row of an id and its group. -/
def purgeLead (t : JobTable) (lead : JobId) : Option (VaultId × GroupId) := do
  let j ← t.rows.find? fun j => j.id = lead && j.action = .cloudPurge
  let g ← j.groupId
  some (j.vaultId, g)

/-- `claim_purge_group`: every active member is leased, or none.  `acquired` is the answer of
`pg_try_advisory_xact_lock`. -/
def claimPurgeGroup (t : JobTable) (lead : JobId) (token : Token)
    (claimedAt expires now : Stamp) (message messageKey : String) (acquired : Bool) :
    Option JobTable := do
  let (v, g) ← t.purgeLead lead
  guard acquired
  let active := t.activePurges v g
  guard (active ≠ [] ∧ ∀ j ∈ active, j.claimAvailable now ∧ j.purgeRunnable now)
  some (t.rewrite (fun j => j.id ∈ active.map fun k => k.id)
    (fun j => j.startPurge token claimedAt expires message messageKey)
    fun j => j.startPurge_id token claimedAt expires message messageKey)

end JobTable

/-! ### The claim of a worker's thread -/

/-- `_worker_claim` of a thread: the Job and the token it was started for, and the signal
that the claim is lost. -/
structure WorkerContext where
  active : Option (JobId × Token)
  lost : Bool

namespace WorkerContext

/-- A thread without claim, such as a callback of the provider's client. -/
def none : WorkerContext := ⟨Option.none, false⟩

/-- `_claim_token_for`. -/
def claimTokenFor (ctx : WorkerContext) (job : JobId) : Option Token :=
  ctx.active.bind fun (id, token) => if id = job then some token else Option.none

/-- `_claim_is_lost`. -/
def claimIsLost (ctx : WorkerContext) (job : JobId) : Bool :=
  (ctx.active.any fun (id, _) => id = job) && ctx.lost

end WorkerContext

namespace JobTable

/-! ### The writers of a worker -/

/-- `renew_job_claim`. -/
def renewJobClaim (t : JobTable) (job : JobId) (token : Token) (now expires : Stamp) :
    Option JobTable :=
  t.update (fun j => j.id = job && j.ownedBy token now) (fun j => j.extend expires)
    JobRow.same_id

lemma reported_id (status : JobStatus) (message : JobMessage) (timestamp : Stamp) (j : JobRow) :
    (if status.leaseHeld
      then (j.report status message timestamp).extend (claimExpiryAt timestamp)
      else (j.report status message timestamp).dropClaim).id = j.id := by
  split <;> rfl

/-- `set_job`. -/
def setJob (t : JobTable) (ctx : WorkerContext) (job : JobId) (status : JobStatus)
    (message : JobMessage) (timestamp : Stamp) : Option JobTable :=
  if ctx.claimIsLost job then none
  else
    match ctx.claimTokenFor job with
    | some token =>
        t.update (fun j => j.id = job && j.ownedBy token timestamp)
          (fun j => if status.leaseHeld
            then (j.report status message timestamp).extend (claimExpiryAt timestamp)
            else (j.report status message timestamp).dropClaim)
          (reported_id status message timestamp)
    | none =>
        t.update (fun j => j.id = job) (fun j => j.report status message timestamp)
          JobRow.same_id

/-- The columns of a scheduled retry. -/
def retry (j : JobRow) (message : JobMessage) (retryCount : ℕ) (retryAfter timestamp : Stamp) :
    JobRow :=
  { j with
    status := .retrying
    message := message
    retryCount := retryCount
    retryAfter := some retryAfter
    updatedAt := timestamp }

/-- `schedule_upload_retry`; `retryAfter` is the end of the delay with its jitter. -/
def scheduleUploadRetry (t : JobTable) (ctx : WorkerContext) (job : JobId)
    (message : JobMessage) (retryCount : ℕ) (retryAfter timestamp : Stamp) : Option JobTable :=
  if ctx.claimIsLost job then none
  else
    match ctx.claimTokenFor job with
    | some token =>
        t.update (fun j => j.id = job && j.ownedBy token timestamp)
          (fun j => (retry j message retryCount retryAfter timestamp).dropClaim) JobRow.same_id
    | none =>
        t.update (fun j => j.id = job)
          (fun j => retry j message retryCount retryAfter timestamp) JobRow.same_id

/-- `set_job_progress`; a callback on another thread passes its token. -/
def setJobProgress (t : JobTable) (ctx : WorkerContext) (claimToken : Option Token)
    (job : JobId) (transferredBytes : ℤ) (timestamp : Stamp) : Option JobTable :=
  if ctx.claimIsLost job then none
  else
    match claimToken.or (ctx.claimTokenFor job) with
    | some token =>
        t.update (fun j => j.id = job && j.ownedBy token timestamp)
          (fun j => { (j.extend (claimExpiryAt timestamp)) with
            transferredBytes := (max 0 transferredBytes).toNat
            updatedAt := timestamp }) JobRow.same_id
    | none =>
        t.update (fun j => j.id = job)
          (fun j => { j with
            transferredBytes := (max 0 transferredBytes).toNat
            updatedAt := timestamp }) JobRow.same_id

/-! ### The writers of a purge worker -/

/-- The rows `renew_purge_group_claim` matches. -/
def claimedPurge (v : VaultId) (g : GroupId) (token : Token) (now : Stamp) (j : JobRow) :
    Bool :=
  j.vaultId = v && j.groupId = some g && j.action = .cloudPurge && j.status = .cleaning &&
    j.claimToken = some token && j.claimExpiresAt.any (now < ·)

/-- `renew_purge_group_claim`; the caller raises, and rolls back, unless exactly the expected
Jobs were renewed. -/
def renewPurgeGroupClaim (t : JobTable) (v : VaultId) (g : GroupId) (token : Token)
    (expected : List JobId) (now expires : Stamp) : Option JobTable :=
  let renewed := (t.rows.filter (claimedPurge v g token now)).map fun j => j.id
  if (∀ id ∈ renewed, id ∈ expected) ∧ ∀ id ∈ expected, id ∈ renewed then
    some (t.rewrite (claimedPurge v g token now) (fun j => j.extend expires)
      fun j => j.extend_id expires)
  else none

/-- The columns `finalize_purge_job` sets, the claim dropped. -/
def finalized (j : JobRow) (completed : Bool) (stamp : Stamp) : JobRow :=
  { j.dropClaim with
    status := if completed then .completed else .failed
    message := ⟨if completed then "Cloud deletion completed" else "Cloud deletion partially failed",
      j.message.key, j.message.params⟩
    updatedAt := stamp
    transferredBytes := if completed then j.totalBytes else j.transferredBytes }

@[simp] lemma finalized_id (j : JobRow) (completed : Bool) (stamp : Stamp) :
    (finalized j completed stamp).id = j.id := rfl

/-- The last transaction of `process_cloud_purge`: the group is renewed, each of its Jobs is
finalized (`completed` says whether its items are all deleted) and its claim dropped. -/
def finishPurgeGroup (t : JobTable) (v : VaultId) (g : GroupId) (token : Token)
    (expected : List JobId) (completed : JobId → Bool) (stamp : Stamp) : Option JobTable := do
  let renewed ← t.renewPurgeGroupClaim v g token expected stamp (claimExpiryAt stamp)
  some (renewed.rewrite (fun j => j.id ∈ expected) (fun j => finalized j (completed j.id) stamp)
    fun j => finalized_id j _ stamp)

/-- `_release_preflight_purge_claim`. -/
def releasePreflightPurgeClaim (t : JobTable) (v : VaultId) (g : GroupId) (token : Token)
    (now : Stamp) : Option JobTable :=
  t.update (claimedPurge v g token now)
    (fun j => { j.dropClaim with status := .queued }) JobRow.same_id

/-! ### Restart reconciliation -/

/-- What a restart decision does to the progress columns. -/
inductive ProgressChange
  | keep | reset | complete
deriving DecidableEq, Repr

/-- The columns a restart decision sets. -/
def reconciled (j : JobRow) (status : JobStatus) (progress : ProgressChange)
    (message : String) (timestamp : Stamp) : JobRow :=
  { (j.report status ⟨message, j.message.key, j.message.params⟩ timestamp).dropClaim with
    transferredBytes := match progress with
      | .keep => j.transferredBytes
      | .reset => 0
      | .complete => j.totalBytes }

/-- `_reconcile_job_transition`: only a Job without a live claim is moved. -/
def reconcileTransition (t : JobTable) (job : JobId) (status : JobStatus)
    (progress : ProgressChange) (message : String) (timestamp : Stamp) : Option JobTable :=
  t.update (fun j => j.claimAvailable timestamp && j.id = job && !j.status.terminal)
    (fun j => reconciled j status progress message timestamp) fun _ => rfl

/-- What the items of a group and the provider's listing say of an interrupted purge. -/
inductive PurgeOutcome
  | failed | requeued
deriving DecidableEq, Repr

/-- `_reconcile_cloud_purge_group`: its checks, and the transition of each interrupted
member. -/
def reconcilePurgeGroup (t : JobTable) (v : VaultId) (g : GroupId) (outcome : PurgeOutcome)
    (message : String) (timestamp : Stamp) : Option JobTable :=
  let active := t.activePurges v g
  let jobs := active.filter fun j => j.status = .cleaning
  if active.all (fun j => j.claimAvailable timestamp) ∧
      active.all (fun j => j.status = .cleaning || j.status = .queued) ∧ jobs ≠ [] then
    some (t.rewrite (fun j => j.claimAvailable timestamp && j.id ∈ jobs.map (fun k => k.id) &&
        !j.status.terminal)
      (fun j => reconciled j (if outcome = .failed then .failed else .queued) .keep message
        timestamp) fun _ => rfl)
  else none

/-- The exception branch of `_reconcile_interrupted_jobs_impl`: every stale interrupted member
of the group fails. -/
def failStalePurges (t : JobTable) (v : VaultId) (g : GroupId) (message : String)
    (timestamp : Stamp) : Option JobTable :=
  t.update (fun j => j.vaultId = v && j.groupId = some g && j.action = .cloudPurge &&
      j.status = .cleaning && j.claimAvailable timestamp)
    (fun j => reconciled j .failed .keep message timestamp) fun _ => rfl

/-! ### The Owner and the consent -/

/-- `message_keys` of `cancel_job_group`. -/
def cancelMessageKey : JobAction → Option String
  | .upload => some "job.upload_stopped"
  | .recover => some "job.recovery_stopped"
  | .freeSpace => some "job.cleanup_stopped"
  | .rename => some "job.rename_stopped"
  | .cloudPurge => some "job.cloud_purge_stopped"
  | .storageClass => some "job.storage_class_stopped"
  | .cloudArchive => none

/-- `cancel_job_group` of another action than `cloud-purge`, whose groups `cancelDeletion`
cancels: the claim stays in the row. -/
def cancelJobGroup (translate : String → String) (t : JobTable) (v : VaultId) (g : GroupId)
    (action : JobAction) (timestamp : Stamp) : Option JobTable := do
  let messageKey ← cancelMessageKey action
  guard (action ≠ .cloudPurge)
  t.update (fun j => j.vaultId = v && j.groupId = some g && j.action = action &&
      !j.status.terminal)
    (fun j => { j with
      status := .cancelled
      message := ⟨translate messageKey, some messageKey, some "\x7b\x7d"⟩
      updatedAt := timestamp }) JobRow.same_id

/-- `_cancel_rows` on the Jobs. -/
def cancelled (j : JobRow) (reason : String) (timestamp : Stamp) : JobRow :=
  { j.dropClaim with
    status := .cancelled
    message := ⟨reason, j.message.key, j.message.params⟩
    updatedAt := timestamp }

/-- The `cloud-purge` Jobs of a group. -/
def inPurgeGroup (v : VaultId) (g : GroupId) (j : JobRow) : Bool :=
  j.vaultId = v && j.groupId = some g && j.action = .cloudPurge

/-- `cancel_cloud_deletion`. -/
def cancelDeletion (t : JobTable) (v : VaultId) (g : GroupId) (timestamp : Stamp) :
    Option JobTable :=
  if ∀ j ∈ t.rows.filter (inPurgeGroup v g), j.status = .pendingDelay ∧ j.claimToken = none then
    t.update (inPurgeGroup v g)
      (fun j => cancelled j "Cancelled before deletion started" timestamp) fun _ => rfl
  else none

/-- `validate_execution` when the consent does not hold any more. -/
def revokeExecution (t : JobTable) (v : VaultId) (g : GroupId) (reason : String)
    (timestamp : Stamp) : Option JobTable :=
  t.update (fun j => inPurgeGroup v g j && !j.status.terminal)
    (fun j => cancelled j reason timestamp) fun _ => rfl

end JobTable

end Frostvault
