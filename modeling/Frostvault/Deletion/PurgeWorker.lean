import Frostvault.Lib.History
import Frostvault.Observation.Statements

/-!
The workers of the delayed cloud deletion (`process_cloud_purge` and
`_release_preflight_purge_claim` of `app/storage.py`, `load_claimed_purge_group` and
`renew_purge_group_claim` of `app/catalog.py`).

A worker validates its group before every batch of the provider's `DeleteObjects`, and
between two of its transactions anything else may happen: other workers, new requests and
cancellations, observations of Local Copies, restarts, scans, uploads and renames.  A worker
may stop at any point.

* `PurgePhase`: the points of `process_cloud_purge` between its transactions and calls;
* `DeletionAct`, `deletionStep`: one transaction or one call of the system;
* `PurgeEvent`: what the history of the system keeps of it.
-/

namespace Frostvault

/-! ### The statements of a worker -/

/-- `CLOUD_DELETE_BATCH_SIZE`. -/
def cloudDeleteBatchSize : ℕ := 1000

/-- The rows `renew_purge_group_claim` matches. -/
def Job.purgeClaimed (v : VaultId) (g : GroupId) (token : ℕ) (now : Stamp) (j : Job) : Bool :=
  j.vaultId = v && j.groupId = some g && j.action = .cloudPurge && j.status = .cleaning &&
    j.claimToken = some token && j.claimExpiresAt.any (now < ·)

/-- `renew_purge_group_claim`; unless exactly the expected Jobs were renewed, the caller
raises. -/
def renewPurgeGroupClaim (cat : Catalog) (v : VaultId) (g : GroupId) (token : ℕ)
    (expected : List JobId) (now expires : Stamp) : Option Catalog :=
  let renewed := (cat.jobs.filter (Job.purgeClaimed v g token now)).map Job.id
  if (∀ id ∈ renewed, id ∈ expected) ∧ ∀ id ∈ expected, id ∈ renewed then
    some (cat.mapJobs (fun j => if j.purgeClaimed v g token now then
        { j with claimExpiresAt := some expires } else j)
      fun j => by split <;> rfl)
  else none

/-- A live claim of one open Job: the condition of every write under a token. -/
def Job.ownedBy (j : Job) (token : ℕ) (now : Stamp) : Bool :=
  j.claimToken = some token && j.claimExpiresAt.any (now < ·) && !j.status.terminal

/-- `renew_job_claim`: the heartbeat, and `ensure_job_active`. -/
def renewJobClaim (cat : Catalog) (job : JobId) (token : ℕ) (now expires : Stamp) : Catalog :=
  cat.mapJobs (fun j => if j.id = job ∧ j.ownedBy token now then
      { j with claimExpiresAt := some expires } else j)
    fun j => by split <;> rfl

/-- `set_job` under the claim of the worker, for a status that gives the claim back. -/
def setClaimedJob (cat : Catalog) (job : JobId) (token : ℕ) (status : JobStatus)
    (now : Stamp) : Catalog :=
  cat.mapJobs (fun j => if j.id = job ∧ j.ownedBy token now then j.settle status else j)
    fun j => by split <;> rfl

/-- `_release_preflight_purge_claim`: the group keeps its consent and its deadline. -/
def releasePreflightPurgeClaim (cat : Catalog) (v : VaultId) (g : GroupId) (token : ℕ)
    (now : Stamp) : Catalog :=
  cat.mapJobs (fun j => if j.purgeClaimed v g token now then j.settle .queued else j)
    fun j => by split <;> rfl

/-- `load_claimed_purge_group`: the active members and their open items, when all of them
are leased to the worker. -/
def loadClaimedPurgeGroup (cat : Catalog) (lead : JobId) (token : ℕ) (now : Stamp) :
    List Job × List DeletionItem :=
  match (cat.jobs.find? fun j => j.id = lead && j.action = .cloudPurge).bind fun j =>
      j.groupId.map fun g => (j.vaultId, g) with
  | none => ([], [])
  | some (v, g) =>
      let active := activePurges cat v g
      if active.all fun j => j.status = .cleaning && j.claimToken = some token &&
          j.claimExpiresAt.any (now < ·) then
        (active, cat.items.filter fun i => i.jobId ∈ active.map Job.id &&
          (i.status = .pending || i.status = .failed))
      else ([], [])

/-- The last transaction of `process_cloud_purge` after its renewal: each Job is finalized,
and the terminal ones give their claim back. -/
def finalizePurgeGroup (cat : Catalog) (expected : List (JobId × FileId)) : Option Catalog := do
  let done ← expected.foldlM (fun cat j => finalizePurgeJob cat j.1 j.2) cat
  some (done.mapJobs (fun j => if j.id ∈ expected.map Prod.fst ∧ j.status.terminal = true then
      { j with
        claimToken := none
        claimExpiresAt := none }
    else j) fun j => by split <;> rfl)

/-! ### The provider's answer -/

/-- An entry of `Errors` in the answer of `DeleteObjects`. -/
structure DeleteError where
  key : Option ObjectKey
  versionId : Option ProviderVersionId
deriving DecidableEq, Repr

/-- The errors of an answer; `none` when the call raised. -/
abbrev DeleteAnswer := Option (List DeleteError)

/-- Whether the answer reports an item as failed.  An error without key or version fails the
whole batch. -/
def DeleteAnswer.fails (answer : DeleteAnswer) (i : DeletionItem) : Bool :=
  match answer with
  | none => true
  | some errors =>
      errors.any fun e => e.key.isNone || e.versionId.isNone ||
        (errors.all (fun e => e.key.isSome && e.versionId.isSome) &&
          e.key = some i.objectKey && e.versionId = some i.providerVersionId)

/-! ### The system -/

/-- Where `process_cloud_purge` stands.  `expected` are the claimed Jobs with their files,
`batches` what is left of the claimed items. -/
inductive PurgePhase
  | claimed
  | between (expected : List (JobId × FileId)) (batches : List (List DeletionItem))
  /-- The next batch is validated and the group renewed. -/
  | authorised (expected : List (JobId × FileId)) (batch : List DeletionItem)
      (batches : List (List DeletionItem))
  | answered (expected : List (JobId × FileId)) (deleted failed : List ℕ)
      (batches : List (List DeletionItem))

/-- The items the worker may still send to the provider. -/
def PurgePhase.items : PurgePhase → List DeletionItem
  | .claimed => []
  | .between _ batches => batches.flatten
  | .authorised _ batch batches => batch ++ batches.flatten
  | .answered _ _ _ batches => batches.flatten

/-- A worker of a claimed group. -/
structure PurgeWorker where
  token : ℕ
  lead : JobId
  vaultId : VaultId
  groupId : GroupId
  phase : PurgePhase

/-- A committed validation with the renewal in its transaction. -/
structure Validation where
  token : ℕ
  vaultId : VaultId
  groupId : GroupId
  vault : VaultView
  expected : List (JobId × FileId)
  /-- The time `validate_execution` compares with. -/
  at_ : Stamp
  expires : Stamp
  /-- The catalog it read, and the one it left. -/
  before : Catalog
  after : Catalog

/-- What the history keeps. -/
inductive PurgeEvent
  /-- A request was admitted with these Jobs and items. -/
  | admitted (v : VaultId) (g : GroupId) (jobs : List Job) (items : List DeletionItem)
  | validated (val : Validation)
  /-- The irreversible call. -/
  | deleteObjects (token : ℕ) (v : VaultId) (g : GroupId) (batch : List DeletionItem)

/-- The catalog, the workers that run and the history, the newest event last. -/
structure PurgeWorld where
  cat : Catalog
  workers : List PurgeWorker
  log : List PurgeEvent

namespace PurgeWorld

/-- Nobody works and nothing has happened. -/
def start (cat : Catalog) : PurgeWorld := ⟨cat, [], []⟩

/-- The worker of a token. -/
def worker? (w : PurgeWorld) (token : ℕ) : Option PurgeWorker :=
  w.workers.find? fun k => k.token = token

/-- The workers without the one of a token. -/
def without (w : PurgeWorld) (token : ℕ) : List PurgeWorker :=
  w.workers.filter fun k => k.token ≠ token

/-- The workers with one of them at another point. -/
def replaced (w : PurgeWorld) (k : PurgeWorker) : List PurgeWorker := k :: w.without k.token

end PurgeWorld

/-- An observation that records Local Copies as present or unsupported. -/
inductive Sighting
  | single (v : VaultId) (e : LocalEntry) (seenAt recoveredAt : Option Stamp)
  | batch (v : VaultId) (entries : List LocalEntry) (seenAt : Option Stamp)

/-- The Vault of the observation. -/
def Sighting.vault : Sighting → VaultId
  | .single v _ _ _ => v
  | .batch v _ _ => v

/-- `observe_local_copy` or `observe_local_copies_batch`. -/
def Sighting.run (vaults : VaultTable) (cat : Catalog) : Sighting → Option Catalog
  | .single v e seenAt recoveredAt => observeLocalCopy vaults cat v e seenAt recoveredAt
  | .batch v entries seenAt => observeLocalCopiesBatch vaults cat v entries seenAt

/-- The files whose Local Copies it records. -/
def Sighting.files (cat : Catalog) : Sighting → List FileId
  | .single v e _ _ => [(getOrCreateFile cat v e.path e.observedAt).2]
  | .batch v entries _ =>
      match lastByPath entries with
      | [] => []
      | e :: es => (resolveOrCreateFiles cat v ((e :: es).map LocalEntry.path)
          e.observedAt).2.map Prod.snd

/-- The `cloud-purge` Jobs. -/
def purgeJobs (cat : Catalog) : List Job := cat.jobs.filter fun j => j.action = .cloudPurge

/-- `jobs_one_active_file_uq`: a file has at most one Job that is not terminal. -/
def OneActiveFile (cat : Catalog) : Prop :=
  ((cat.jobs.filter fun j => !j.status.terminal).map Job.vaultFileId).Nodup

instance (cat : Catalog) : Decidable (OneActiveFile cat) :=
  inferInstanceAs (Decidable (List.Nodup _))

/-- One transaction or call of the system. -/
inductive DeletionAct
  | schedule (vaults : VaultTable) (v : VaultId) (sel : Selection) (requestedAt : Stamp)
      (confirmation reason : String) (origin : JobOrigin)
  | cancel (vaults : VaultTable) (v : VaultId) (g : GroupId)
  | restart (listing : ProviderListing) (lead : JobId) (now : Stamp)
  | sight (vaults : VaultTable) (s : Sighting)
  /-- Any other transaction: a scan, an upload, a rename, a copy that is gone, a settled hold,
  a new or finished Job of another action. -/
  | other (cat : Catalog)
  | claim (lead : JobId) (token : ℕ) (now expires : Stamp)
  | heartbeat (token : ℕ) (now expires : Stamp)
  /-- The first transaction of `process_cloud_purge`. -/
  | load (token : ℕ) (vaults : VaultTable) (at_ : Stamp)
  /-- The transaction before a batch. -/
  | authorise (token : ℕ) (vaults : VaultTable) (at_ now expires : Stamp)
  | send (token : ℕ) (answer : DeleteAnswer)
  /-- The transaction after a batch. -/
  | record (token : ℕ) (returnedAt now expires : Stamp)
  | finish (token : ℕ) (now expires : Stamp)
  | release (token : ℕ) (now : Stamp)
  /-- `set_job` in an exception handler of `_process_claimed_job`. -/
  | report (token : ℕ) (status : JobStatus) (now : Stamp)
  /-- The worker dies, stops or has lost its lease. -/
  | stop (token : ℕ)

namespace PurgeWorld

/-- The transaction before a batch: `validate_execution`, then the renewal.  A consent that is
revoked ends the worker. -/
def authorise (w : PurgeWorld) (k : PurgeWorker) (vaults : VaultTable) (at_ now expires : Stamp) :
    Option PurgeWorld :=
  match k.phase with
  | .between expected (batch :: batches) => do
      let vault ← vaults k.vaultId
      let (cat, valid) ← validateExecution vaults w.cat k.vaultId k.groupId at_
      if valid then
        let after ← renewPurgeGroupClaim cat k.vaultId k.groupId k.token
          (expected.map Prod.fst) now expires
        some
          { cat := after
            workers := w.replaced { k with phase := .authorised expected batch batches }
            log := w.log ++ [.validated ⟨k.token, k.vaultId, k.groupId, vault, expected, at_,
              expires, cat, after⟩] }
      else
        some
          { w with
            cat := cat
            workers := w.without k.token }
  | _ => none

/-- The first transaction: the consent is validated and the group is loaded. -/
def load (w : PurgeWorld) (k : PurgeWorker) (vaults : VaultTable) (at_ : Stamp) :
    Option PurgeWorld :=
  match k.phase with
  | .claimed => do
      let (cat, valid) ← validateExecution vaults w.cat k.vaultId k.groupId at_
      let (jobs, items) := loadClaimedPurgeGroup cat k.lead k.token at_
      if valid ∧ jobs ≠ [] then
        some
          { w with
            cat := cat
            workers := w.replaced { k with
              phase := .between (jobs.map fun j => (j.id, j.vaultFileId))
                (chunked items cloudDeleteBatchSize) } }
      else
        some
          { w with
            cat := cat
            workers := w.without k.token }
  | _ => none

/-- The call of `DeleteObjects` with its answer. -/
def send (w : PurgeWorld) (k : PurgeWorker) (answer : DeleteAnswer) : Option PurgeWorld :=
  match k.phase with
  | .authorised expected batch batches =>
      some
        { w with
          workers := w.replaced { k with
            phase := .answered expected
              ((batch.filter fun i => !answer.fails i).map DeletionItem.id)
              ((batch.filter fun i => answer.fails i).map DeletionItem.id) batches }
          log := w.log ++ [.deleteObjects k.token k.vaultId k.groupId batch] }
  | _ => none

/-- The transaction after a batch: the renewal, then the results. -/
def record (w : PurgeWorld) (k : PurgeWorker) (returnedAt now expires : Stamp) :
    Option PurgeWorld :=
  match k.phase with
  | .answered expected deleted failed batches => do
      let cat ← renewPurgeGroupClaim w.cat k.vaultId k.groupId k.token (expected.map Prod.fst)
        now expires
      some
        { w with
          cat := markItemsFailed (markItemsDeleted cat deleted returnedAt) failed
          workers := w.replaced { k with phase := .between expected batches } }
  | _ => none

/-- The last transaction: the renewal, then the outcome of each Job. -/
def finish (w : PurgeWorld) (k : PurgeWorker) (now expires : Stamp) : Option PurgeWorld :=
  match k.phase with
  | .between expected [] => do
      let cat ← renewPurgeGroupClaim w.cat k.vaultId k.groupId k.token (expected.map Prod.fst)
        now expires
      let done ← finalizePurgeGroup cat expected
      some
        { w with
          cat := done
          workers := w.without k.token }
  | _ => none

/-- A claim starts a worker. -/
def claim (w : PurgeWorld) (lead : JobId) (token : ℕ) (now expires : Stamp) :
    Option PurgeWorld := do
  let job ← w.cat.jobs.find? fun j => j.id = lead && j.action = .cloudPurge
  let g ← job.groupId
  let cat ← claimPurgeGroup w.cat lead token now expires
  some
    { w with
      cat := cat
      workers := w.replaced ⟨token, lead, job.vaultId, g, .claimed⟩ }

/-- The system after the action; `none` when it raised, or does not apply. -/
def act (w : PurgeWorld) : DeletionAct → Option PurgeWorld
  | .schedule vaults v sel requestedAt confirmation reason origin => do
      let cat ← scheduleCloudPurge vaults w.cat v sel requestedAt confirmation reason origin
      some
        { w with
          cat := cat
          log := w.log ++ [.admitted v (freshGroupId w.cat) (cat.jobs.drop w.cat.jobs.length)
            (cat.items.drop w.cat.items.length)] }
  | .cancel vaults v g =>
      (cancelCloudDeletion vaults w.cat v g).map fun cat => { w with cat := cat }
  | .restart listing lead now =>
      (reconcileInterruptedPurge listing w.cat lead now).map fun cat => { w with cat := cat }
  | .sight vaults s => (s.run vaults w.cat).map fun cat => { w with cat := cat }
  | .other cat =>
      if purgeJobs cat = purgeJobs w.cat ∧ cat.items = w.cat.items then
        some { w with cat := cat }
      else none
  | .claim lead token now expires =>
      if token ∈ w.workers.map PurgeWorker.token then none else w.claim lead token now expires
  | .heartbeat token now expires =>
      (w.worker? token).map fun k => { w with cat := renewJobClaim w.cat k.lead token now expires }
  | .load token vaults at_ => (w.worker? token).bind fun k => w.load k vaults at_
  | .authorise token vaults at_ now expires =>
      (w.worker? token).bind fun k => w.authorise k vaults at_ now expires
  | .send token answer => (w.worker? token).bind fun k => w.send k answer
  | .record token returnedAt now expires =>
      (w.worker? token).bind fun k => w.record k returnedAt now expires
  | .finish token now expires => (w.worker? token).bind fun k => w.finish k now expires
  | .release token now => (w.worker? token).map fun k =>
      { w with
        cat := releasePreflightPurgeClaim w.cat k.vaultId k.groupId token now
        workers := w.without token }
  | .report token status now =>
      if status = .failed ∨ status = .cancelled ∨ status = .queued then
        (w.worker? token).map fun k =>
          { w with
            cat := setClaimedJob w.cat k.lead token status now
            workers := w.without token }
      else none
  | .stop token => some { w with workers := w.without token }

end PurgeWorld

/-- One step: a transaction that breaks the index on open Jobs is rolled back. -/
def deletionStep (w : PurgeWorld) (a : DeletionAct) : Option PurgeWorld := do
  let w' ← w.act a
  guard (OneActiveFile w'.cat)
  some w'

end Frostvault
