import Frostvault.Deletion.CloudDeletion
import Frostvault.Lib.Checks

/-!
Upload intents (`app/services/upload_provenance.py`, `migrations/versions/0064_upload_provenance.py`):
the facts that are committed before a file is written to the bucket, and what may be
written about them afterwards.

The database keeps targets, snapshots, inventories and responses as canonical JSON; here
the rows keep the values.  A function that raises returns an error, and its transaction is
rolled back.  `uuid4` is the next number of a supply that never goes back.

* `target`, `requireTarget`: whether the Job may still act on its file;
* `loadForJob`, `outstanding`, `bindForResume`: the intent an attempt resumes;
* `prepare`, `markSendStarted`: before the request;
* `appendReceipt`, `receipt`, `recordNoWrite`: its outcome;
* `publishUploadReceipt`, `settleKeeper`: the version is in the catalog, its cleanup is done;
* `uploadCatalogUnit`: a transaction of a worker, behind its lease.
-/

namespace Frostvault

open List Checks

abbrev IntentId := ℕ
abbrev UploadToken := ℕ
abbrev RemediationId := ℕ

/-! ### Errors -/

/-- The reasons of `REMEDIES`. -/
inductive BlockReason
  | ambiguousSend | listPermissionDenied | ambiguousReceipt | inventoryChanged
  | cleanupUnavailable | identityChanged | proofMismatch | proofUnavailable | orphanDifferent
  | keeperMissing | markersPresent | activeOperation | sourceVolumeUnavailable | vaultSuspended
  | pendingDeletion | protectionPaused | cloudOnlyConflict | alreadyResolved
  | expectedEvidenceMissing | targetSuperseded | targetUnavailable | ownerCancelled
deriving DecidableEq, Repr

/-- What an upload attempt raises: `UploadBlocked`, or `JobLeaseLost`. -/
inductive UploadError
  | blocked (reason : BlockReason)
  | leaseLost
deriving DecidableEq, Repr

/-- A database function: it raises, or returns. -/
abbrev Outcome (α : Type) := Except UploadError α

/-! ### Rows -/

/-- `vaults.relocation_state`. -/
inductive RelocationState
  | ready | scanRequired
deriving DecidableEq, Repr

/-- The columns of `vaults` an upload looks at. -/
structure VaultRow where
  sourceRoot : String
  s3Bucket : String
  s3Prefix : String
  enabled : Bool
  decommissionState : DecommissionState
  relocationState : RelocationState
  /-- `root_released_at` is set. -/
  rootReleased : Bool
  rootIdentity : Option String
  rootIdentityVersion : Option String
deriving DecidableEq, Repr

/-- What an intent pins: `target_json`. -/
structure UploadTarget where
  vaultId : VaultId
  vaultFileId : FileId
  bucket : String
  s3Prefix : String
  key : ObjectKey
  provider : String
  path : Path
  pathSince : Stamp
  sourceRoot : String
  rootIdentity : Option String
  rootIdentityVersion : Option String
deriving DecidableEq, Repr

/-- A complete listing of one key: `inventory_json`. -/
structure Inventory where
  versions : List ProviderVersionId
  markers : List ProviderVersionId
deriving DecidableEq, Repr

/-- A row of `upload_intents`. -/
structure UploadIntent where
  id : IntentId
  token : UploadToken
  vaultId : VaultId
  vaultFileId : FileId
  originalJobId : JobId
  target : UploadTarget
  snapshot : UploadSnapshot
  requested : VerificationMode
  inventory : Inventory
  sendStarted : Bool
  archiveVersionId : Option RowId
  settled : Bool
  createdAt : Stamp
deriving DecidableEq, Repr

/-- `NO_WRITE_OPERATIONS`. -/
inductive NoWriteOperation
  | putObject | createMultipartUpload | uploadPart | completeMultipartUpload | provenAbsent
deriving DecidableEq, Repr

/-- An operation by its name, if it is on the list. -/
def NoWriteOperation.ofName : String → Option NoWriteOperation
  | "PutObject" => some .putObject
  | "CreateMultipartUpload" => some .createMultipartUpload
  | "UploadPart" => some .uploadPart
  | "CompleteMultipartUpload" => some .completeMultipartUpload
  | "ProvenAbsent" => some .provenAbsent
  | _ => none

/-- The fields of a response that `append_receipt` keeps. -/
structure UploadResponse where
  versionId : Option ProviderVersionId
  etag : Option String
  checksumSha256 : Option String
  checksumType : Option String
  contentLength : Option ℕ
  storageClass : Option StorageClass
deriving DecidableEq, Repr

/-- `upload_receipts.response_json`: a response, or the outcome that nothing was written. -/
inductive UploadFact
  | response (r : UploadResponse)
  | noWrite (op : NoWriteOperation)
deriving DecidableEq, Repr

/-- `upload_remediation_state`. -/
inductive RemediationState
  | pending | queued | retrying | blocked | suspended | cancelled | resolved
deriving DecidableEq, Repr

/-- `upload_remediations.phase`. -/
inductive RemediationPhase
  | upload | verification | cleanup | completion | completed
deriving DecidableEq, Repr

/-- A row of `upload_remediations` with its originals and its Jobs.  A reason that is not in
`REMEDIES` is none. -/
structure Remediation where
  id : RemediationId
  vaultId : VaultId
  vaultFileId : FileId
  intentId : Option IntentId
  archiveVersionId : Option RowId
  bucket : Option String
  s3Prefix : Option String
  sourceRoot : Option String
  rootIdentity : Option String
  rootIdentityVersion : Option String
  expectedSha256 : Option Digest
  snapshot : Option UploadSnapshot
  requestedMode : VerificationMode
  state : RemediationState
  phase : RemediationPhase
  reason : Option BlockReason
  currentJobId : Option JobId
  originals : List JobId
  jobs : List JobId
deriving DecidableEq, Repr

/-- An empty journal has drawn no `uuid4`. -/
lemma UploadIntent.nil_lt : ∀ i ∈ ([] : List UploadIntent), i.id < 0 ∧ i.token < 0 :=
  forall_mem_nil _

/-- The tables of the upload journal, with the promises of their keys. -/
structure UploadDb where
  cat : Catalog
  vaults : VaultId → Option VaultRow
  remediations : List Remediation
  intents : List UploadIntent
  /-- `upload_intent_jobs`: a Job and the intent it is bound to. -/
  intentJobs : List (JobId × IntentId)
  receipts : List (IntentId × UploadFact)
  /-- The next `uuid4`. -/
  nextUuid : ℕ
  intentIds_nodup : (intents.map UploadIntent.id).Nodup
  tokens_nodup : (intents.map UploadIntent.token).Nodup
  uuids_lt : ∀ i ∈ intents, i.id < nextUuid ∧ i.token < nextUuid
  intentJobs_nodup : (intentJobs.map Prod.fst).Nodup

/-- The Job as its worker holds it: the row read by `list_claimable_jobs` with the columns
of its Vault, and the token of the claim. -/
structure WorkerJob where
  row : Job
  token : ℕ
  sourceRoot : String
  s3Bucket : String
  s3Prefix : String
deriving DecidableEq, Repr

/-- The Job with a given id. -/
def Catalog.job? (cat : Catalog) (id : JobId) : Option Job :=
  cat.jobs.find? fun j => j.id = id

namespace UploadDb

/-! ### Writing rows -/

/-- Rewrite the intents, their ids and tokens kept. -/
def mapIntents (db : UploadDb) (g : UploadIntent → UploadIntent) (hid : ∀ i, (g i).id = i.id)
    (htok : ∀ i, (g i).token = i.token) : UploadDb :=
  { db with
    intents := db.intents.map g
    intentIds_nodup := by
      rw [map_map, show UploadIntent.id ∘ g = UploadIntent.id from funext hid]
      exact db.intentIds_nodup
    tokens_nodup := by
      rw [map_map, show UploadIntent.token ∘ g = UploadIntent.token from funext htok]
      exact db.tokens_nodup
    uuids_lt := by
      intro i hi
      obtain ⟨i₀, hi₀, rfl⟩ := mem_map.mp hi
      rw [hid, htok]
      exact db.uuids_lt i₀ hi₀ }

/-- Rewrite the Jobs. -/
def mapJobs (db : UploadDb) (g : Job → Job) (hid : ∀ j, (g j).id = j.id) : UploadDb :=
  { db with cat := db.cat.mapJobs g hid }

/-- `INSERT INTO upload_intents`, with the id and the token the supply gives. -/
def insertIntent (db : UploadDb) (row : IntentId → UploadToken → UploadIntent)
    (hid : ∀ n t, (row n t).id = n) (htok : ∀ n t, (row n t).token = t) : UploadDb :=
  { db with
    intents := db.intents ++ [row db.nextUuid (db.nextUuid + 1)]
    nextUuid := db.nextUuid + 2
    intentIds_nodup := by
      rw [map_append, nodup_append]
      refine ⟨db.intentIds_nodup, by simp, ?_⟩
      intro a ha b hb
      obtain ⟨i, hi, rfl⟩ := mem_map.mp ha
      simp only [map_cons, map_nil, mem_singleton, hid] at hb
      rw [hb]
      exact Nat.ne_of_lt (db.uuids_lt i hi).1
    tokens_nodup := by
      rw [map_append, nodup_append]
      refine ⟨db.tokens_nodup, by simp, ?_⟩
      intro a ha b hb
      obtain ⟨i, hi, rfl⟩ := mem_map.mp ha
      simp only [map_cons, map_nil, mem_singleton, htok] at hb
      rw [hb]
      exact Nat.ne_of_lt (Nat.lt_succ_of_lt (db.uuids_lt i hi).2)
    uuids_lt := by
      intro i hi
      rcases mem_append.mp hi with hi | hi
      · obtain ⟨hi₁, hi₂⟩ := db.uuids_lt i hi
        exact ⟨Nat.lt_add_right 2 hi₁, Nat.lt_add_right 2 hi₂⟩
      · rw [mem_singleton.mp hi, hid, htok]
        exact ⟨Nat.lt_add_of_pos_right Nat.two_pos, Nat.lt_succ_self _⟩ }

/-- Rewrite the row of one intent and give it a new token. -/
def renewToken (db : UploadDb) (id : IntentId) (g : UploadIntent → UploadToken → UploadIntent)
    (hid : ∀ i t, (g i t).id = i.id) (htok : ∀ i t, (g i t).token = t) : UploadDb :=
  { db with
    intents := db.intents.map fun i => if i.id = id then g i db.nextUuid else i
    nextUuid := db.nextUuid + 1
    intentIds_nodup := by
      have hids : UploadIntent.id ∘ (fun i => if i.id = id then g i db.nextUuid else i) =
          UploadIntent.id := by
        funext i
        simp only [Function.comp_apply]
        split
        · exact hid i _
        · rfl
      rw [map_map, hids]
      exact db.intentIds_nodup
    tokens_nodup := by
      have hpair := pairwise_map.mp db.tokens_nodup
      have hids := pairwise_map.mp db.intentIds_nodup
      rw [map_map, List.Nodup, pairwise_map]
      refine List.Pairwise.imp_of_mem ?_ (hpair.and hids)
      intro a b ha hb hab
      have hla := (db.uuids_lt a ha).2
      have hlb := (db.uuids_lt b hb).2
      simp only [Function.comp_apply]
      split <;> split
      · rename_i h h'
        exact absurd (h.trans h'.symm) hab.2
      · rw [htok]
        exact (Nat.ne_of_lt hlb).symm
      · rw [htok]
        exact Nat.ne_of_lt hla
      · exact hab.1
    uuids_lt := by
      intro i hi
      obtain ⟨i₀, hi₀, rfl⟩ := mem_map.mp hi
      obtain ⟨hlt₁, hlt₂⟩ := db.uuids_lt i₀ hi₀
      split
      · rw [hid, htok]
        exact ⟨Nat.lt_succ_of_lt hlt₁, Nat.lt_succ_self _⟩
      · exact ⟨Nat.lt_succ_of_lt hlt₁, Nat.lt_succ_of_lt hlt₂⟩ }

/-- `INSERT INTO upload_intent_jobs … ON CONFLICT (job_id) DO NOTHING`. -/
def bind (db : UploadDb) (job : JobId) (intent : IntentId) : UploadDb :=
  if h : job ∈ db.intentJobs.map Prod.fst then db
  else
    { db with
      intentJobs := db.intentJobs ++ [(job, intent)]
      intentJobs_nodup := by
        rw [map_append, nodup_append]
        refine ⟨db.intentJobs_nodup, by simp, ?_⟩
        intro a ha b hb
        simp only [map_cons, map_nil, mem_singleton] at hb
        rintro rfl
        exact h (hb ▸ ha) }

/-- `INSERT INTO upload_receipts … ON CONFLICT DO NOTHING`. -/
def addFact (db : UploadDb) (intent : IntentId) (f : UploadFact) : UploadDb :=
  if (intent, f) ∈ db.receipts then db else { db with receipts := db.receipts ++ [(intent, f)] }

end UploadDb

/-! ### Receipts -/

/-- Two values of one field: they must not differ. -/
def mergeField {α : Type} [DecidableEq α] : Option α → Option α → Option (Option α)
  | none, y => some y
  | some x, none => some (some x)
  | some x, some y => if x = y then some (some x) else none

/-- One round of the loop of `receipt`; `none` when a field differs. -/
def UploadResponse.merge (a b : UploadResponse) : Option UploadResponse := do
  some ⟨← mergeField a.versionId b.versionId, ← mergeField a.etag b.etag,
    ← mergeField a.checksumSha256 b.checksumSha256, ← mergeField a.checksumType b.checksumType,
    ← mergeField a.contentLength b.contentLength, ← mergeField a.storageClass b.storageClass⟩

/-- A response without fields. -/
def UploadResponse.empty : UploadResponse := ⟨none, none, none, none, none, none⟩

/-- The responses received for an intent; the outcomes without a write are history. -/
def responses (db : UploadDb) (intent : IntentId) : List UploadResponse :=
  db.receipts.filterMap fun (i, f) =>
    match f with
    | .response r => if i = intent then some r else none
    | .noWrite _ => none

/-- `receipt`. -/
def receipt (db : UploadDb) (intent : IntentId) : Outcome (Option UploadResponse) :=
  if responses db intent = [] then .ok none
  else
    match (responses db intent).foldlM UploadResponse.merge UploadResponse.empty with
    | none => .error (.blocked .ambiguousReceipt)
    | some r =>
        if r.versionId.any (· ≠ nullVersionId) then .ok (some r)
        else .error (.blocked .ambiguousReceipt)

/-- `append_receipt`: a transaction of its own, behind no lease. -/
def appendReceipt (db : UploadDb) (intent : IntentId) (r : UploadResponse) : UploadDb :=
  db.addFact intent (.response r)

/-- `proven_absent`. -/
def provenAbsent (db : UploadDb) (intent : Option IntentId) : Bool :=
  intent.any fun i => db.receipts.contains (i, .noWrite .provenAbsent)

/-! ### The target -/

/-- `require_job` (`app/services/upload_remediation.py`): the episode a remediation Job
belongs to still wants it. -/
def requireJob (db : UploadDb) (job : WorkerJob) : Outcome Unit :=
  match db.remediations.find? fun r => r.jobs.contains job.row.id with
  | none => .ok ()
  | some r =>
      match db.cat.job? job.row.id, db.vaults r.vaultId with
      | some current, some vault => do
          require (r.state ≠ .cancelled ∧
            ∀ o ∈ r.originals, (db.cat.job? o).all (fun j => j.status ≠ .cancelled))
            (.blocked .ownerCancelled)
          require (r.state ≠ .resolved) (.blocked .alreadyResolved)
          require (r.currentJobId = some job.row.id) (.blocked .activeOperation)
          require (r.state ≠ .blocked) (.blocked (r.reason.getD .proofUnavailable))
          require ((current.uploadReconcileOnly ∨ provenAbsent db r.intentId) ∧
            current.vaultFileId = r.vaultFileId ∧
            current.uploadPlaintextSha256 = r.expectedSha256 ∧
            current.uploadSnapshot = r.snapshot ∧
            current.uploadVerificationRequested = some r.requestedMode ∧
            (r.archiveVersionId = none ∨ current.archiveVersionId = r.archiveVersionId) ∧
            r.bucket = some vault.s3Bucket ∧ r.s3Prefix = some vault.s3Prefix ∧
            r.sourceRoot = some vault.sourceRoot ∧ r.rootIdentity = vault.rootIdentity ∧
            r.rootIdentityVersion = vault.rootIdentityVersion) (.blocked .identityChanged)
      -- both rows exist by their foreign keys
      | _, _ => .error (.blocked .identityChanged)

/-- The file of the Job with its current path. -/
def targetFile (db : UploadDb) (job : WorkerJob) : Option VaultFile :=
  db.cat.files.find? fun f =>
    f.id = job.row.vaultFileId && f.vaultId = job.row.vaultId && f.currentPath.isSome

/-- Another Job of the file that is not over. -/
def incompatible (db : UploadDb) (job : WorkerJob) : Bool :=
  db.cat.jobs.any fun j =>
    j.vaultFileId = job.row.vaultFileId && j.id ≠ job.row.id && !j.status.terminal

/-- `target`. -/
def target (db : UploadDb) (job : WorkerJob) (key : ObjectKey) (provider : String) :
    Outcome UploadTarget := do
  requireJob db job
  let current := db.cat.job? job.row.id
  require (current.all fun j => j.status ≠ .cancelled) (.blocked .ownerCancelled)
  require (current.all fun j => j.status ≠ .failed ∧ j.status ≠ .completed)
    (.blocked .alreadyResolved)
  match db.vaults job.row.vaultId, targetFile db job, current with
  | some vault, some file, some current => do
      require (file.status = .active ∧ current.vaultFileId = job.row.vaultFileId ∧
        current.path = job.row.path ∧ file.currentPath = some job.row.path ∧
        vault.sourceRoot = job.sourceRoot ∧ vault.s3Bucket = job.s3Bucket ∧
        vault.s3Prefix = job.s3Prefix) (.blocked .identityChanged)
      require (vault.enabled ∧ vault.decommissionState = .active ∧
        vault.relocationState = .ready ∧ vault.rootReleased = false) (.blocked .vaultSuspended)
      require (incompatible db job = false) (.blocked .activeOperation)
      require (file.localCopy.bind LocalCopy.cloudOnlyVersionId = none)
        (.blocked .cloudOnlyConflict)
      pure
        { vaultId := job.row.vaultId
          vaultFileId := job.row.vaultFileId
          bucket := vault.s3Bucket
          s3Prefix := vault.s3Prefix
          key := key
          provider := provider
          path := job.row.path
          pathSince := file.pathSince
          sourceRoot := vault.sourceRoot
          rootIdentity := vault.rootIdentity
          rootIdentityVersion := vault.rootIdentityVersion }
  | _, _, _ => throw (.blocked .identityChanged)

/-- `require_target`. -/
def requireTarget (db : UploadDb) (job : WorkerJob) (pinned : UploadTarget) : Outcome Unit := do
  let current ← target db job pinned.key pinned.provider
  require (current = pinned) (.blocked .identityChanged)

/-! ### The intent of an attempt -/

/-- An intent by its id. -/
def UploadDb.intent? (db : UploadDb) (id : IntentId) : Option UploadIntent :=
  db.intents.find? fun i => i.id = id

/-- `load_for_job`. -/
def loadForJob (db : UploadDb) (job : JobId) : Option UploadIntent :=
  (db.intentJobs.find? fun b => b.1 = job).bind fun b => db.intent? b.2

/-- A send that has started and is not accounted for. -/
def UploadIntent.outstanding (i : UploadIntent) : Bool := i.sendStarted && !i.settled

/-- `outstanding`. -/
def outstanding (db : UploadDb) (file : FileId) : Outcome (Option UploadIntent) :=
  match db.intents.filter fun i => i.vaultFileId = file && i.outstanding with
  | [] => .ok none
  | [i] => .ok (some i)
  | _ => .error (.blocked .ambiguousSend)

/-- The Job was cancelled. -/
def Catalog.jobCancelled (cat : Catalog) (job : JobId) : Bool :=
  (cat.job? job).any fun j => j.status = .cancelled

/-- `bind_for_resume`. -/
def bindForResume (db : UploadDb) (job : JobId) (intent : UploadIntent) : Outcome UploadDb := do
  require ((db.cat.job? intent.originalJobId).isSome ∧
    db.cat.jobCancelled intent.originalJobId = false ∧
    ∀ b ∈ db.intentJobs, b.2 = intent.id → db.cat.jobCancelled b.1 = false)
    (.blocked .identityChanged)
  pure (db.bind job intent.id)

/-- The intent of the file never sent and is closed when another one is prepared. -/
def UploadIntent.unstarted (i : UploadIntent) (file : FileId) (keep : Option IntentId) : Bool :=
  i.vaultFileId = file && !i.settled && !i.sendStarted && i.archiveVersionId.isNone &&
    keep ≠ some i.id

/-- Close an intent. -/
def UploadIntent.settle (i : UploadIntent) : UploadIntent := { i with settled := true }

/-- `_settle_unstarted`.  A receipt of one of the rows undoes the whole transaction, so the
receipts are looked at first. -/
def settleUnstarted (db : UploadDb) (file : FileId) (keep : Option IntentId) :
    Outcome UploadDb := do
  (db.intents.filter fun i => i.unstarted file keep).forM fun i => do
    let r ← receipt db i.id
    require (r = none) (.blocked .ambiguousReceipt)
  pure (db.mapIntents (fun i => if i.unstarted file keep then i.settle else i)
    (fun i => by split <;> rfl) fun i => by split <;> rfl)

/-- What `prepare` freezes. -/
structure Prepared where
  target : UploadTarget
  snapshot : UploadSnapshot
  requested : VerificationMode
  inventory : Inventory
deriving DecidableEq, Repr

/-- The values an intent has frozen. -/
def UploadIntent.frozen (i : UploadIntent) : Prepared :=
  ⟨i.target, i.snapshot, i.requested, i.inventory⟩

/-- Freeze other values, under a new token. -/
def UploadIntent.repin (p : Prepared) (at_ : Stamp) (i : UploadIntent) (token : UploadToken) :
    UploadIntent :=
  { i with
    token := token
    target := p.target
    snapshot := p.snapshot
    requested := p.requested
    inventory := p.inventory
    createdAt := at_ }

/-- A new row of `upload_intents`. -/
def newIntent (job : WorkerJob) (p : Prepared) (at_ : Stamp) (id : IntentId)
    (token : UploadToken) : UploadIntent where
  id := id
  token := token
  vaultId := job.row.vaultId
  vaultFileId := job.row.vaultFileId
  originalJobId := job.row.id
  target := p.target
  snapshot := p.snapshot
  requested := p.requested
  inventory := p.inventory
  sendStarted := false
  archiveVersionId := none
  settled := false
  createdAt := at_

/-- `prepare` for a Job that is bound to an intent. -/
def prepareExisting (db : UploadDb) (job : WorkerJob) (p : Prepared) (at_ : Stamp)
    (existing : UploadIntent) : Outcome (UploadIntent × UploadDb) :=
  if existing.sendStarted ∨ existing.settled ∨ existing.archiveVersionId.isSome ∨
      p = existing.frozen then
    .ok (existing, db)
  else do
    -- never sent, and the content or the cloud inventory moved on
    let r ← receipt db existing.id
    require (r = none) (.blocked .ambiguousReceipt)
    let db' := db.renewToken existing.id (UploadIntent.repin p at_) (fun _ _ => rfl)
      fun _ _ => rfl
    let db'' ← settleUnstarted db' job.row.vaultFileId (some existing.id)
    pure (existing.repin p at_ db.nextUuid, db'')

/-- `prepare` for a Job without an intent. -/
def prepareNew (db : UploadDb) (job : WorkerJob) (p : Prepared) (at_ : Stamp) :
    Outcome (UploadIntent × UploadDb) := do
  let db' ← settleUnstarted db job.row.vaultFileId none
  let previous ← outstanding db' job.row.vaultFileId
  require (previous = none) (.blocked .ambiguousSend)
  let row := newIntent job p at_ db'.nextUuid (db'.nextUuid + 1)
  let db'' := db'.insertIntent (newIntent job p at_) (fun _ _ => rfl) fun _ _ => rfl
  pure (row, db''.bind job.row.id row.id)

/-- `prepare`. -/
def prepare (db : UploadDb) (job : WorkerJob) (p : Prepared) (at_ : Stamp) :
    Outcome (UploadIntent × UploadDb) := do
  requireTarget db job p.target
  match loadForJob db job.row.id with
  | some existing => prepareExisting db job p at_ existing
  | none => prepareNew db job p at_

/-! ### The send and its outcome -/

/-- `UPDATE upload_intents … WHERE id=%s`. -/
def UploadDb.updateIntent (db : UploadDb) (id : IntentId) (g : UploadIntent → UploadIntent)
    (hid : ∀ i, (g i).id = i.id) (htok : ∀ i, (g i).token = i.token) : UploadDb :=
  db.mapIntents (fun i => if i.id = id then g i else i)
    (fun i => by split <;> simp [hid]) fun i => by split <;> simp [htok]

/-- Set `send_started`. -/
def UploadIntent.setSendStarted (b : Bool) (i : UploadIntent) : UploadIntent :=
  { i with sendStarted := b }

lemma UploadIntent.setSendStarted_id (b : Bool) (i : UploadIntent) :
    (i.setSendStarted b).id = i.id := rfl

lemma UploadIntent.setSendStarted_token (b : Bool) (i : UploadIntent) :
    (i.setSendStarted b).token = i.token := rfl

/-- `mark_send_started`. -/
def markSendStarted (db : UploadDb) (job : WorkerJob) (intent : UploadIntent) :
    Outcome UploadDb := do
  requireTarget db job intent.target
  let r ← receipt db intent.id
  require (r = none) (.blocked .ambiguousReceipt)
  require ((db.intent? intent.id).any fun i => !i.sendStarted) (.blocked .ambiguousSend)
  pure (db.updateIntent intent.id (UploadIntent.setSendStarted true)
    (UploadIntent.setSendStarted_id true) (UploadIntent.setSendStarted_token true))

/-- `record_no_write`. -/
def recordNoWrite (db : UploadDb) (job : WorkerJob) (intent : UploadIntent)
    (operation : String) : Outcome UploadDb := do
  match NoWriteOperation.ofName operation with
  | none => throw (.blocked .ambiguousSend)
  | some op => do
      requireTarget db job intent.target
      let r ← receipt db intent.id
      require (r = none) (.blocked .ambiguousReceipt)
      require ((db.intent? intent.id).any fun i =>
        i.sendStarted && !i.settled && i.archiveVersionId.isNone) (.blocked .ambiguousReceipt)
      let db' := db.updateIntent intent.id (UploadIntent.setSendStarted false)
        (UploadIntent.setSendStarted_id false) (UploadIntent.setSendStarted_token false)
      pure (db'.addFact intent.id (.noWrite op))

/-- The Job may send: it is no longer reconcile-only. -/
def Job.released (j : Job) : Job := { j with uploadReconcileOnly := false }

/-- The episode of a re-armed attempt is back in its queue. -/
def Remediation.rearmed (r : Remediation) : Remediation :=
  { r with
    state := .queued
    phase := .upload
    reason := none }

/-- `release_for_rearm` (`app/services/upload_remediation.py`). -/
def releaseForRearm (db : UploadDb) (job : WorkerJob) : UploadDb :=
  let db' :=
    if job.row.uploadReconcileOnly then
      db.mapJobs (fun j => if j.id = job.row.id && !j.status.terminal then j.released else j)
        fun j => by split <;> rfl
    else db
  { db' with
    remediations := db'.remediations.map fun r =>
      if r.jobs.contains job.row.id && r.currentJobId = some job.row.id && r.state ≠ .resolved
      then r.rearmed else r }

/-- Link a Job to its version. -/
def Job.linkVersion (v : RowId) (j : Job) : Job := { j with archiveVersionId := some v }

/-- Keep the snapshot on the Job. -/
def Job.setUploadSnapshot (snap : UploadSnapshot) (j : Job) : Job :=
  { j with
    uploadSnapshot := some snap
    uploadPlaintextSha256 := some snap.plaintextSha256 }

/-- `UPDATE jobs … WHERE id=%s`. -/
def UploadDb.updateJob (db : UploadDb) (id : JobId) (g : Job → Job)
    (hid : ∀ j, (g j).id = j.id) : UploadDb :=
  db.mapJobs (fun j => if j.id = id then g j else j) fun j => by split <;> simp [hid]

/-- `link_job_version`. -/
def linkJobVersion (db : UploadDb) (job : JobId) (v : RowId) : UploadDb :=
  db.updateJob job (Job.linkVersion v) fun _ => rfl

/-- `set_upload_snapshot`. -/
def setUploadSnapshot (db : UploadDb) (job : JobId) (snap : UploadSnapshot) : UploadDb :=
  db.updateJob job (Job.setUploadSnapshot snap) fun _ => rfl

/-- Link an intent to the version it produced, unless it is linked to another one. -/
def UploadIntent.linkVersion (v : RowId) (i : UploadIntent) : UploadIntent :=
  if i.archiveVersionId = none ∨ i.archiveVersionId = some v then
    { i with archiveVersionId := some v }
  else i

@[simp] lemma UploadIntent.linkVersion_id (v : RowId) (i : UploadIntent) :
    (i.linkVersion v).id = i.id := by
  unfold UploadIntent.linkVersion
  split <;> rfl

@[simp] lemma UploadIntent.linkVersion_token (v : RowId) (i : UploadIntent) :
    (i.linkVersion v).token = i.token := by
  unfold UploadIntent.linkVersion
  split <;> rfl

/-- The transaction of `_publish_upload_receipt` (`app/storage.py`); `recorded` is the row
`record_archive_version` returns for the response. -/
def publishUploadReceipt (db : UploadDb) (job : WorkerJob) (intent : UploadIntent)
    (response : UploadResponse) (recorded : RowId) : Outcome UploadDb := do
  require (response.versionId.any fun v => v ≠ nullVersionId ∧ v ∉ intent.inventory.versions)
    (.blocked .ambiguousReceipt)
  requireTarget db job intent.target
  let db' := linkJobVersion (setUploadSnapshot db job.row.id intent.snapshot) job.row.id recorded
  pure (db'.updateIntent intent.id (UploadIntent.linkVersion recorded)
    (fun _ => UploadIntent.linkVersion_id _ _) fun _ => UploadIntent.linkVersion_token _ _)

/-- The settlement of `cleanup` (`app/services/snapshot_cleanup.py`): the intents of the
keeper are accounted for. -/
def settleKeeper (db : UploadDb) (file : FileId) (keeper : RowId) : UploadDb :=
  db.mapIntents
    (fun i => if i.archiveVersionId = some keeper ∧ i.vaultFileId = file then i.settle else i)
    (fun i => by split <;> rfl) fun i => by split <;> rfl

/-! ### Transactions behind the lease -/

/-- `renew_job_claim` finds the row: the claim is the Job's, and the Job is not over.  The
clock is left out: a lease may be lost at any moment. -/
def claimOwned (db : UploadDb) (job : WorkerJob) : Bool :=
  db.cat.jobs.any fun j =>
    j.id = job.row.id && j.claimToken = some job.token && !j.status.terminal

/-- `_upload_catalog_unit` (`app/storage.py`): the target stands, the lease is owned, and the
callback runs in the same transaction. -/
def uploadCatalogUnit {α : Type} (db : UploadDb) (job : WorkerJob) (key : ObjectKey)
    (mutation : Outcome α) : Outcome α := do
  let _ ← target db job key "db-fence"
  require (claimOwned db job) .leaseLost
  mutation

end Frostvault
