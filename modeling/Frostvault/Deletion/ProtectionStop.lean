import Frostvault.Deletion.PurgeWorker
import Frostvault.Lib.Effects
import Frostvault.Observation.Admission

/-!
Stopping the protection of a folder (`app/services/protection_stop.py`), and the admissions of
Jobs it competes with.

The world is one Vault: its row, its row of `protection_stops` and the catalog.  Every
transaction here locks the Vault row first, so two of them never overlap; stops, cancellations
and releases also take the allocation lock.  Workers do not wait for these locks to report on
their Jobs.  So a transaction is a program whose statements are separate actions, and between
two of them the Jobs go on (`Executes`).  A worker may also see what a transaction has not yet
committed, which only adds runs.  A transaction that raises or is lost writes nothing, and what
happened meanwhile are steps of their own.

* `stopProtection`, `reconcileOne`, `cancelDeletion`: the source's functions, statement by
  statement;
* `admitJobs`, `purgeManually`, `admitRemediation`, `scheduleResumeLegacy`, `scheduleClassMove`:
  the admissions of Jobs;
* `Executes`: what the workers and everybody else may do to the Jobs of the Vault;
* `stopStep`: one step of the system.

`approve_recover` of `app/main.py`, which resumes waiting Jobs, is not part of the system.
-/

namespace Frostvault

open Effects

/-! ### Rows -/

/-- The columns of a Vault row that are read here. -/
structure VaultLifecycle where
  name : String
  decommissionState : DecommissionState
  /-- `root_released_at` is set. -/
  rootReleased : Bool
  enabled : Bool
  /-- `relocation_state = 'ready'`. -/
  relocationReady : Bool
deriving DecidableEq, Repr

/-- `protection_stops_cloud_ck`. -/
inductive CloudDisposition
  | keep | delete
deriving DecidableEq, Repr

/-- A row of `protection_stops`. -/
structure ProtectionStop where
  cloudDisposition : CloudDisposition
  groupId : Option GroupId
deriving DecidableEq, Repr

/-- One Vault with the catalog. -/
structure StopWorld where
  vault : VaultLifecycle
  stop : Option ProtectionStop
  cat : Catalog

/-- What the workflow learns about the Vault outside the database. -/
structure VaultHealth where
  ownsKey : ObjectKey → Bool
  unconfirmed : Bool
  localAbsence : List Path → Bool

/-- The group whose deletion the stop stands for. -/
def StopWorld.stopGroup (w : StopWorld) : Option GroupId :=
  w.stop.bind fun stop => if stop.cloudDisposition = .delete then stop.groupId else none

/-- The Vault as the cloud deletion reads it. -/
def StopWorld.views (w : StopWorld) (health : VaultHealth) (v : VaultId) : VaultTable := fun u =>
  if u = v then
    some
      { name := w.vault.name
        decommissionState := w.vault.decommissionState
        rootReleased := w.vault.rootReleased
        enabled := w.vault.enabled
        ownsKey := health.ownsKey
        unconfirmed := health.unconfirmed
        localAbsence := health.localAbsence
        stopGroup := w.stopGroup }
  else none

/-! ### Statements -/

/-- The exceptions. -/
inductive StopError
  /-- `ConfirmationRequired`. -/
  | confirmation
  /-- "Choose keep or delete and provide a reason". -/
  | choice
  /-- "Folder protection has already stopped". -/
  | alreadyStopped
  /-- "Reconnect must complete before deleting cloud content". -/
  | reconnectFirst
  /-- "Wait for active Jobs or cancel pending work first". -/
  | activeJobs
  /-- "No pending cloud deletion". -/
  | noDeletion
  /-- `CloudDeletionError`. -/
  | cloudDeletion
  /-- `vault_quiesced`, `vault_suspended` and `MoveBlocked`. -/
  | suspended
  /-- Any other reason an admission is refused for. -/
  | refused
  /-- A second row for a key. -/
  | unique
deriving DecidableEq, Repr

/-- A transaction on the Vault. -/
abbrev StopProg := Prog StopWorld Unit StopError

/-- `SELECT .. FROM vaults .. FOR UPDATE`. -/
def readVault : StopProg VaultLifecycle := .ask (fun _ => ()) fun w => .ok w.vault

/-- `SELECT * FROM protection_stops`. -/
def readStop : StopProg (Option ProtectionStop) := .ask (fun _ => ()) fun w => .ok w.stop

/-- The Jobs of a Vault. -/
def vaultJobs (cat : Catalog) (v : VaultId) : List Job := cat.jobs.filter fun j => j.vaultId = v

/-- `SELECT .. FROM jobs WHERE vault_id=..`. -/
def readJobs (v : VaultId) (p : Job → Bool) : StopProg (List Job) :=
  .ask (fun _ => ()) fun w => .ok ((vaultJobs w.cat v).filter p)

/-- A statement that writes. -/
def writeRow (f : StopWorld → StopWorld) : StopProg Unit :=
  .commit (fun _ => ()) fun w => .ok ((), f w)

/-- Statements that write the catalog or raise. -/
def writeCatalog (e : StopError) (f : StopWorld → Option Catalog) : StopProg Unit :=
  .commit (fun _ => ()) fun w =>
    match f w with
    | some cat => .ok ((), { w with cat := cat })
    | none => .error e

/-! ### `reconcile_one` -/

/-- `cloud_disposition='keep'`. -/
def StopWorld.keepCloud (w : StopWorld) : StopWorld :=
  { w with stop := w.stop.map fun stop => { stop with cloudDisposition := .keep } }

/-- `decommission_state='decommissioning'`. -/
def StopWorld.decommission (w : StopWorld) : StopWorld :=
  { w with vault := { w.vault with decommissionState := .decommissioning } }

/-- `decommission_state='decommissioned'` with `root_released_at`. -/
def StopWorld.release (w : StopWorld) : StopWorld :=
  { w with
    vault := { w.vault with
      decommissionState := .decommissioned
      rootReleased := true } }

/-- A deletion of which a Job was cancelled keeps the rest of the content. -/
def keepIfCancelled (jobs : List Job) : StopProg Unit :=
  if jobs.any fun j => j.status = .cancelled then writeRow StopWorld.keepCloud else pure ()

/-- The release that waits for the group of a deletion. -/
def releaseAfterGroup (jobs : List Job) : StopProg Unit :=
  -- fails closed until the Owner chooses keep after a failure
  if jobs = [] ∨ (jobs.any fun j => j.status ≠ .completed && j.status ≠ .cancelled) then pure ()
  else do
    keepIfCancelled jobs
    writeRow StopWorld.release

/-- The release of a stop. -/
def releaseStop (v : VaultId) (stop : ProtectionStop) : StopProg Unit :=
  match stop.groupId, stop.cloudDisposition with
  | some g, .delete => do
      let jobs ← readJobs v fun j => j.groupId = some g
      releaseAfterGroup jobs
  | _, _ => writeRow StopWorld.release

/-- `reconcile_one`. -/
def reconcileOne (v : VaultId) : StopProg Unit := do
  let vault ← readVault
  let stop ← readStop
  match stop with
  | none => pure ()
  | some stop => if vault.rootReleased then pure () else releaseStop v stop

/-! ### `stop_protection` -/

/-- The arguments of `stop_protection`, with what is read outside the database. -/
structure StopRequest where
  cloudDisposition : String
  confirmation : String
  reason : String
  requestedAt : Stamp
  health : VaultHealth

/-- The disposition asked for, when it is one and a reason is given. -/
def StopRequest.disposition (req : StopRequest) : Option CloudDisposition := do
  guard (req.reason.toList.any fun c => !isSpace c)
  if req.cloudDisposition = "keep" then some .keep
  else if req.cloudDisposition = "delete" then some .delete
  else none

/-- The whole Vault. -/
def wholeVaultSelection : Selection := ⟨[], false, true⟩

/-- The request goes on as one of the owner's deletions. -/
def stopDeletion (v : VaultId) (req : StopRequest) : StopProg GroupId :=
  .commit (fun _ => ()) fun w =>
    match scheduleCloudPurge (w.views req.health v) w.cat v wholeVaultSelection req.requestedAt
        req.confirmation req.reason .stopProtection with
    | some cat => .ok (freshGroupId w.cat, { w with cat := cat })
    | none => .error .cloudDeletion

/-- `_selected_files` for the whole Vault. -/
def readSelected (v : VaultId) : StopProg (List VaultFile) :=
  .ask (fun _ => ()) fun w => match selectedFiles w.cat v wholeVaultSelection with
    | some files => .ok files
    | none => .error .cloudDeletion

/-- The group of the stop: none when nothing is in the cloud. -/
def stopGroupOf (v : VaultId) (req : StopRequest) : CloudDisposition → StopProg (Option GroupId)
  | .keep => pure none
  | .delete => do
      let files ← readSelected v
      if files = [] then pure none
      else do
        let g ← stopDeletion v req
        pure (some g)

/-- `INSERT INTO protection_stops`; `vault_id` is the primary key. -/
def insertStop (stop : ProtectionStop) : StopProg Unit :=
  .commit (fun _ => ()) fun w =>
    if w.stop.isSome then .error .unique else .ok ((), { w with stop := some stop })

/-- The stop of a protected folder. -/
def stopActive (v : VaultId) (vault : VaultLifecycle) (req : StopRequest)
    (disposition : CloudDisposition) : StopProg Unit := do
  .require (disposition = .delete → vault.relocationReady = true) .reconnectFirst
  let active ← readJobs v fun j => !j.status.terminal
  .require (active = []) .activeJobs
  let group ← stopGroupOf v req disposition
  insertStop ⟨disposition, group⟩
  writeRow StopWorld.decommission
  reconcileOne v

/-- The Owner keeps what a deletion has left. -/
def keepAfterStop (v : VaultId) : StopProg Unit := do
  let active ← readJobs v fun j => !j.status.terminal
  .require (active = []) .alreadyStopped
  writeRow StopWorld.keepCloud
  reconcileOne v

/-- The stop of a folder that has already stopped. -/
def stopAgain (v : VaultId) (vault : VaultLifecycle) (disposition : CloudDisposition) :
    StopProg Unit := do
  let existing ← readStop
  match existing with
  | none => .raise .alreadyStopped
  | some stop =>
      if stop.cloudDisposition = disposition then pure ()
      else if disposition = .keep ∧ vault.rootReleased = false then keepAfterStop v
      else .raise .alreadyStopped

/-- `stop_protection`. -/
def stopProtection (v : VaultId) (req : StopRequest) : StopProg Unit := do
  let vault ← readVault
  .require (req.confirmation = vault.name) .confirmation
  match req.disposition with
  | none => .raise .choice
  | some disposition =>
      if vault.decommissionState = .active then stopActive v vault req disposition
      else stopAgain v vault disposition

/-! ### `cancel_deletion` -/

/-- The cancellation of a group under its stop. -/
def cancelGroup (v : VaultId) (health : VaultHealth) (g : GroupId) : StopProg Unit := do
  writeCatalog .cloudDeletion fun w => cancelCloudDeletion (w.views health v) w.cat v g
  writeRow StopWorld.keepCloud
  reconcileOne v

/-- `cancel_deletion`. -/
def cancelDeletion (v : VaultId) (health : VaultHealth) : StopProg Unit := do
  let _ ← readVault
  let stop ← readStop
  match stop.bind ProtectionStop.groupId with
  | none => .raise .noDeletion
  | some g => cancelGroup v health g

/-! ### The admissions -/

/-- `lock_vault` of `app/services/job_admission.py`, and the admission under it: by hand
(`queue_jobs`) or by policy (`queue_auto_uploads`). -/
def admitJobs (admission : Catalog → Option (Catalog × List JobId)) : StopProg Unit := do
  let vault ← readVault
  .require (vault.decommissionState = .active) .suspended
  writeCatalog .refused fun w => (admission w.cat).map Prod.fst

/-- `schedule_cloud_purge` for the Owner. -/
def purgeManually (v : VaultId) (health : VaultHealth) (sel : Selection) (requestedAt : Stamp)
    (confirmation reason : String) : StopProg Unit :=
  writeCatalog .cloudDeletion fun w =>
    scheduleCloudPurge (w.views health v) w.cat v sel requestedAt confirmation reason .manual

/-- `require_ready` of `app/services/vault_moves.py`; `_suspension` of
`app/services/upload_remediation.py` starts with the same condition. -/
def VaultLifecycle.ready (vault : VaultLifecycle) : Bool :=
  vault.enabled && vault.decommissionState = .active && vault.relocationReady &&
    !vault.rootReleased

/-- `admit` of `app/services/upload_remediation.py`: the reconcile-only Job of a remediation.
What the ledger and the evidence decide is `allowed`. -/
def admitRemediation (allowed : Catalog → Bool) (file : FileId) (job : JobId → Job)
    (hid : ∀ n, (job n).id = n) : StopProg Unit := do
  let vault ← readVault
  .require (vault.ready = true) .suspended
  writeCatalog .refused fun w =>
    if allowed w.cat then some (insertOpenJob w.cat file job hid).1 else none

/-- `_schedule_resume_legacy`: the Job is inserted without a clause for a conflict. -/
def scheduleResumeLegacy (resumable : Catalog → Bool) (file : FileId) (job : JobId → Job)
    (hid : ∀ n, (job n).id = n) : StopProg Unit := do
  let vault ← readVault
  .require (vault.ready = true) .suspended
  writeCatalog .refused fun w =>
    if resumable w.cat ∧ hasPendingJob w.cat file = false then
      some (w.cat.insertJob job hid fun _ => [])
    else none

/-- The capture of one candidate of a class move. -/
def captureMove (v : VaultId) (requestedAt : Stamp) (g : GroupId) (acc : Catalog × List JobId)
    (row : FileId × Path × RowId) : Catalog × List JobId :=
  let inserted := insertOpenJob acc.1 row.1 (fun n =>
    { id := n
      vaultId := v
      vaultFileId := row.1
      path := row.2.1
      action := .storageClass
      status := .queued
      origin := .manual
      groupId := some g
      requestedAt := requestedAt
      pendingUntil := none
      claimToken := none
      claimExpiresAt := none
      archiveVersionId := some row.2.2 }) fun _ => rfl
  (inserted.1, acc.2 ++ inserted.2.toList)

/-- `schedule` of `app/services/vault_moves.py`; `eligible` are the rows the plan and the
provider leave. -/
def scheduleClassMove (v : VaultId) (acknowledged : Bool)
    (eligible : Catalog → List (FileId × Path × RowId)) (requestedAt : Stamp) (g : GroupId) :
    StopProg Unit := do
  let vault ← readVault
  .require (vault.ready = true) .suspended
  .require (acknowledged = true) .refused
  writeCatalog .refused fun w =>
    let captured := (eligible w.cat).foldl (captureMove v requestedAt g) (w.cat, [])
    if captured.2 = [] then none else some captured.1

/-- Any other write of the Vault row: its name, whether it is enabled, its relocation. -/
def writeSettings (name : String) (enabled relocationReady : Bool) : StopProg Unit :=
  writeRow fun w =>
    { w with
      vault := { w.vault with
        name := name
        enabled := enabled
        relocationReady := relocationReady } }

/-! ### The system -/

/-- What may happen to a Job while others work: it stays where it is filed, and it stays what
it is once it is over. -/
def Job.GoesOn (j j' : Job) : Prop :=
  j'.id = j.id ∧ j'.action = j.action ∧ j'.groupId = j.groupId ∧
    (j.status.terminal = true → j'.status = j.status)

instance (j j' : Job) : Decidable (j.GoesOn j') := inferInstanceAs (Decidable (_ ∧ _ ∧ _ ∧ _))

/-- What the workers, the other Vaults and the observations do: no Job of the Vault is new,
and those that are over stay so. -/
def Executes (v : VaultId) (cat cat' : Catalog) : Prop :=
  List.Forall₂ Job.GoesOn (vaultJobs cat v) (vaultJobs cat' v)

instance (v : VaultId) (cat cat' : Catalog) : Decidable (Executes v cat cat') :=
  inferInstanceAs (Decidable (List.Forall₂ _ _ _))

/-- A move of the others, when it is one. -/
def executed (v : VaultId) (cat : Catalog) (w : StopWorld) : StopWorld :=
  if Executes v w.cat cat then { w with cat := cat } else w

/-- A transaction under the lock of the Vault row. -/
inductive VaultTransaction
  | stopProtection (req : StopRequest)
  | cancelDeletion (health : VaultHealth)
  | reconcileOne
  | queueJobs (intercept : FileId → Interception) (mode : Option VerificationMode)
      (q : QueueRequest)
  | queueAutoUploads (intercept : FileId → Interception) (mode : Option VerificationMode)
      (a : AutoUpload)
  | purge (health : VaultHealth) (sel : Selection) (requestedAt : Stamp)
      (confirmation reason : String)
  | remediate (allowed : Catalog → Bool) (file : FileId) (job : JobId → Job)
      (hid : ∀ n, (job n).id = n)
  | resume (resumable : Catalog → Bool) (file : FileId) (job : JobId → Job)
      (hid : ∀ n, (job n).id = n)
  | moveClass (acknowledged : Bool) (eligible : Catalog → List (FileId × Path × RowId))
      (requestedAt : Stamp) (g : GroupId)
  | settings (name : String) (enabled relocationReady : Bool)

/-- Its statements. -/
def VaultTransaction.program (v : VaultId) : VaultTransaction → StopProg Unit
  | .stopProtection req => Frostvault.stopProtection v req
  | .cancelDeletion health => Frostvault.cancelDeletion v health
  | .reconcileOne => Frostvault.reconcileOne v
  | .queueJobs intercept mode q =>
      admitJobs fun cat => Frostvault.queueJobs intercept mode cat { q with vaultId := v }
  | .queueAutoUploads intercept mode a =>
      admitJobs fun cat => Frostvault.queueAutoUploads intercept mode cat { a with vaultId := v }
  | .purge health sel requestedAt confirmation reason =>
      purgeManually v health sel requestedAt confirmation reason
  | .remediate allowed file job hid => admitRemediation allowed file job hid
  | .resume resumable file job hid => scheduleResumeLegacy resumable file job hid
  | .moveClass acknowledged eligible requestedAt g =>
      scheduleClassMove v acknowledged eligible requestedAt g
  | .settings name enabled relocationReady => writeSettings name enabled relocationReady

/-- One step: the others go on, or a transaction commits, among moves of the others. -/
inductive StopAct
  | execute (cat : Catalog)
  | transaction (t : VaultTransaction) (moves : List Catalog)

/-- The world after the step; `none` when the transaction did not commit. -/
def stopStep (v : VaultId) (w : StopWorld) : StopAct → Option StopWorld
  | .execute cat => some (executed v cat w)
  | .transaction t moves =>
      match (t.program v).play (executed v) w moves with
      | ⟨_, .returned _, w'⟩ => some w'
      | _ => none

end Frostvault
