import Frostvault.Upload.Provenance

/-!
Upload attempts (`process_upload` of `app/storage.py`, with `_resume_materialized_upload`,
`_rearm_after_proven_absence` and the entry of `upload_file` of `app/services/s3_upload.py`).

An attempt is a worker that has read a Job.  One step is one transaction, one answer of the
provider or one answer of the disk, so attempts of any number of Jobs interleave with each
other and with the rest of the application at every such point.  A check that raises ends
the attempt, and so may anything else: `crash` is possible in every phase.  An attempt
whose lease was taken over keeps running until a check stops it.

What the provider, the disk and the policies answer is a parameter of the step.  The
history records the journal writes and the calls of `upload_s3_file`.

* `AttemptPhase`, `Attempt`, `UploadState`: where each worker stands;
* `UploadAct`, `uploadStep`: the steps;
* `UploadEvent`: the history.
-/

namespace Frostvault

/-! ### States -/

/-- Where an attempt stands in `process_upload`; the arguments are its local variables. -/
inductive AttemptPhase
  /-- The Job is read, not yet claimed. -/
  | selected
  | claimed
  /-- The loaded intent has started its send. -/
  | resuming (i : UploadIntent)
  /-- The receipt is read: a linked intent is linked to the Job, another one is reconciled. -/
  | reconciling (i : UploadIntent) (raw : Option UploadResponse)
  /-- `reconcile` found the version, and its response is appended. -/
  | found (i : UploadIntent) (r : UploadResponse)
  /-- Nothing is left to resume. -/
  | loaded (i : Option UploadIntent)
  /-- The Job has no version and may upload; `old` is the snapshot it already carries. -/
  | unlinked (old : Option UploadSnapshot)
  | hashed (snap : UploadSnapshot)
  /-- The snapshot is on the Job and no version can be reused. -/
  | digested (snap : UploadSnapshot)
  /-- An unchanged version can be reused. -/
  | reusing (v : RowId)
  | pinned (snap : UploadSnapshot) (t : UploadTarget) (before : Inventory)
  | prepared (i : UploadIntent) (snap : UploadSnapshot) (before : Inventory)
  /-- The start of the send is committed. -/
  | armed (i : UploadIntent)
  /-- `upload_s3_file` has been called. -/
  | calling (i : UploadIntent)
  /-- The call has passed its claim check and may write; the response it has received. -/
  | sending (i : UploadIntent) (ack : Option UploadResponse)
  | refused (i : UploadIntent) (op : String)
  | answered (i : UploadIntent) (r : UploadResponse)
  | acknowledged (i : UploadIntent) (r : UploadResponse)
  /-- The version is known: verification and cleanup. -/
  | linked (v : RowId)
  | over
deriving DecidableEq, Repr

/-- A worker with its copy of the Job. -/
structure Attempt where
  job : WorkerJob
  requested : VerificationMode
  phase : AttemptPhase
deriving DecidableEq, Repr

/-- The claim of an attempt. -/
def Attempt.claim (a : Attempt) : ℕ := a.job.token

/-- A call of `upload_s3_file`; `reconcileOnly` is what the row of its Job says. -/
structure SendCall where
  claim : ℕ
  job : JobId
  intent : IntentId
  token : UploadToken
  reconcileOnly : Bool
deriving DecidableEq, Repr

/-- What the history records. -/
inductive UploadEvent
  /-- `append_receipt` has committed a response. -/
  | received (i : IntentId)
  /-- `record_no_write` has committed. -/
  | noWrite (i : IntentId) (op : String)
  /-- `mark_send_started` has committed. -/
  | armed (claim : ℕ) (i : IntentId) (token : UploadToken)
  /-- `upload_s3_file` is called. -/
  | called (c : SendCall)
  /-- The call has passed the claim check it starts with. -/
  | sent (c : SendCall)
deriving DecidableEq, Repr

/-- The database, the attempts and the history. -/
structure UploadState where
  db : UploadDb
  attempts : List Attempt
  log : List UploadEvent
  claims_nodup : (attempts.map Attempt.claim).Nodup

namespace UploadState

/-- No attempt and no history yet. -/
def start (db : UploadDb) : UploadState := ⟨db, [], [], List.nodup_nil⟩

/-- The attempt with a given claim. -/
def attempt? (s : UploadState) (claim : ℕ) : Option Attempt :=
  s.attempts.find? fun a => a.claim = claim

/-- An attempt takes a step: it replaces its predecessor. -/
def put (s : UploadState) (a : Attempt) (db : UploadDb) (es : List UploadEvent) :
    UploadState where
  db := db
  attempts := s.attempts.map fun b => if b.claim = a.claim then a else b
  log := s.log ++ es
  claims_nodup := by
    have hclaims : Attempt.claim ∘ (fun b => if b.claim = a.claim then a else b) =
        Attempt.claim := by
      funext b
      simp only [Function.comp_apply]
      split
      · rename_i h
        exact h.symm
      · rfl
    rw [List.map_map, hclaims]
    exact s.claims_nodup

/-- A token no attempt has: the `uuid4` of a claim. -/
def freshClaim (s : UploadState) : ℕ := Catalog.fresh (s.attempts.map Attempt.claim)

/-- A worker reads a Job, with the token it is going to claim it with. -/
def select (s : UploadState) (job : ℕ → WorkerJob) (hjob : ∀ n, (job n).token = n) :
    UploadState where
  db := s.db
  attempts := s.attempts ++ [⟨job s.freshClaim, .readBack, .selected⟩]
  log := s.log
  claims_nodup := by
    rw [List.map_append, List.nodup_append]
    refine ⟨s.claims_nodup, by simp, ?_⟩
    intro a ha b hb
    simp only [List.map_cons, List.map_nil, List.mem_singleton, Attempt.claim, hjob] at hb
    rw [hb]
    exact Nat.ne_of_lt (Catalog.lt_fresh ha)

end UploadState

/-! ### Steps -/

/-- One step of the system. -/
inductive UploadAct
  /-- Anything else the application writes: files and their rows, Vaults, episodes, the
  other columns of Jobs. -/
  | others (cat : Catalog) (vaults : VaultId → Option VaultRow)
      (remediations : List Remediation)
  /-- A Job is queued. -/
  | queueJob (row : Job)
  /-- `admit`, `schedule_resume`: a reconcile-only Job is queued for an intent. -/
  | admitJob (row : Job) (intent : IntentId)
  /-- A Job that is not over gets another status: by its worker, a cancellation, a
  reconciliation after a restart; its claim may be dropped. -/
  | setStatus (job : JobId) (st : JobStatus) (drop : Bool)
  /-- Another Job's snapshot cleanup settles its keeper: a rename. -/
  | settle (file : FileId) (keeper : RowId)
  | select (job : JobId)
  | claim (a : ℕ)
  | loadIntent (a : ℕ) (key : ObjectKey)
  | readReceipt (a : ℕ) (key : ObjectKey)
  | linkIntent (a : ℕ) (key : ObjectKey)
  /-- `reconcile` returns a response, which is appended. -/
  | reconciled (a : ℕ) (r : UploadResponse)
  /-- `reconcile` raises `ProvenAbsent`; `paused` is the answer of the protection policy. -/
  | rearm (a : ℕ) (key : ObjectKey) (paused : Bool)
  /-- The response is published under the row `record_archive_version` returns. -/
  | publish (a : ℕ) (key : ObjectKey) (recorded : RowId)
  | readTarget (a : ℕ) (key : ObjectKey)
  | hash (a : ℕ) (snap : UploadSnapshot)
  | prepareDigest (a : ℕ) (key : ObjectKey) (reusable : Option RowId)
  | linkReusable (a : ℕ) (key : ObjectKey)
  | pin (a : ℕ) (key : ObjectKey) (provider : String) (before : Inventory)
  | prepare (a : ℕ) (key : ObjectKey) (at_ : Stamp)
  | markSendStarted (a : ℕ) (key : ObjectKey)
  | call (a : ℕ)
  | passCheck (a : ℕ)
  | acknowledge (a : ℕ) (r : UploadResponse)
  | answer (a : ℕ)
  | refuse (a : ℕ) (op : String)
  | recordNoWrite (a : ℕ) (key : ObjectKey)
  | recordResponse (a : ℕ)
  | cleanup (a : ℕ) (key : ObjectKey)
  | crash (a : ℕ)

/-- The active-Job index of a file: nothing else of the file is queued. -/
def fileIdle (cat : Catalog) (file : FileId) : Bool :=
  cat.jobs.all fun j => j.vaultFileId ≠ file || j.status.terminal

/-- The columns of a Job only the transactions below write. -/
def Job.lease (j : Job) : JobId × FileId × JobStatus × Option ℕ × Bool :=
  (j.id, j.vaultFileId, j.status, j.claimToken, j.uploadReconcileOnly)

/-- Insert a Job without deletion items. -/
def UploadDb.insertJob (db : UploadDb) (row : Job) : UploadDb :=
  { db with cat := db.cat.insertJob (fun n => { row with id := n }) (fun _ => rfl) fun _ => [] }

/-- The status of a Job changes; the lease may go. -/
def Job.setStatus (st : JobStatus) (drop : Bool) (j : Job) : Job :=
  { j with
    status := st
    claimToken := if drop then none else j.claimToken
    claimExpiresAt := if drop then none else j.claimExpiresAt }

/-- `claim_job` of an upload. -/
def Job.claimed (token : ℕ) (j : Job) : Job := { j with claimToken := some token }

/-- A queued upload may be claimed. -/
def Job.claimable (j : Job) : Bool :=
  j.action = .upload && (j.status = .queued || j.status = .retrying)

/-- The attempt is in another phase. -/
def Attempt.goto (a : Attempt) (p : AttemptPhase) : Attempt := { a with phase := p }

/-- The attempt's copy of the Job may send: `job["upload_reconcile_only"] = False`. -/
def Attempt.rearmed (a : Attempt) : Attempt :=
  { a with job := { a.job with row := a.job.row.released } }

/-- The call of `upload_s3_file` an attempt makes for an intent. -/
def sendCall (db : UploadDb) (a : Attempt) (i : UploadIntent) : SendCall where
  claim := a.claim
  job := a.job.row.id
  intent := i.id
  token := i.token
  reconcileOnly := (db.cat.job? a.job.row.id).any Job.uploadReconcileOnly

/-- `upload_file` classifies only the refusal of a write as no write. -/
def writeOperations : List String :=
  ["PutObject", "CreateMultipartUpload", "UploadPart", "CompleteMultipartUpload"]

/-- `load_intent`: the intent the Job is bound to, or the one that is outstanding. -/
def loadIntent (db : UploadDb) (job : WorkerJob) : Outcome (Option UploadIntent × UploadDb) :=
  match loadForJob db job.row.id with
  | some i => .ok (some i, db)
  | none => do
      match ← outstanding db job.row.vaultFileId with
      | none => pure (none, db)
      | some i => do
          let db' ← bindForResume db job.row.id i
          pure (some i, db')

/-- The phase after `load_intent`. -/
def AttemptPhase.afterLoad : Option UploadIntent → AttemptPhase
  | none => .loaded none
  | some i => if i.sendStarted then .resuming i else .loaded (some i)

/-- The callback of `_rearm_after_proven_absence`. -/
def rearmAfterProvenAbsence (db : UploadDb) (job : WorkerJob) (intent : UploadIntent) :
    Outcome UploadDb := do
  let db' ← recordNoWrite db job intent "ProvenAbsent"
  pure (releaseForRearm db' job)

/-- The version a Job is linked to. -/
def jobVersion (db : UploadDb) (job : JobId) : Option RowId :=
  (db.cat.job? job).bind Job.archiveVersionId

/-- The phase after `get_job_target`; a reconcile-only Job without a version is blocked. -/
def afterTarget (db : UploadDb) (a : Attempt) (i : Option UploadIntent) : Option Attempt :=
  match jobVersion db a.job.row.id with
  | some v => some (a.goto (.linked v))
  | none =>
      if a.job.row.uploadReconcileOnly then none
      else
        let current := db.cat.job? a.job.row.id
        let requested := match i with
          | some i => i.requested
          | none => (current.bind Job.uploadVerificationRequested).getD .readBack
        some { a with
          requested := requested
          phase := .unlinked (current.bind Job.uploadSnapshot) }

/-- The phase after `find_reusable_upload_version`. -/
def AttemptPhase.afterDigest (snap : UploadSnapshot) : Option RowId → AttemptPhase
  | some v => .reusing v
  | none => .digested snap

/-- A step of an attempt: what it does in the phase it is in. -/
def attemptStep (s : UploadState) (a : Attempt) : UploadAct → Option UploadState
  | .claim _ => do
      guard (a.phase = .selected)
      let j ← s.db.cat.job? a.job.row.id
      guard (j.claimable = true)
      let db := s.db.updateJob a.job.row.id (Job.claimed a.claim) fun _ => rfl
      some (s.put (a.goto .claimed) db [])
  | .loadIntent _ key => do
      guard (a.phase = .claimed)
      let (i, db) ← (uploadCatalogUnit s.db a.job key (loadIntent s.db a.job)).toOption
      some (s.put (a.goto (AttemptPhase.afterLoad i)) db [])
  | .readReceipt _ key =>
      match a.phase with
      | .resuming i => do
          let raw ← (uploadCatalogUnit s.db a.job key (do
            requireTarget s.db a.job i.target
            receipt s.db i.id)).toOption
          some (s.put (a.goto (.reconciling i raw)) s.db [])
      | _ => none
  | .linkIntent _ key =>
      match a.phase with
      | .reconciling i (some _) => do
          let v ← i.archiveVersionId
          guard ((jobVersion s.db a.job.row.id).all (· = v))
          let db ← (uploadCatalogUnit s.db a.job key
            (.ok (linkJobVersion s.db a.job.row.id v))).toOption
          some (s.put (a.goto (.loaded (some i))) db [])
      | _ => none
  | .reconciled _ r =>
      match a.phase with
      | .reconciling i _ => do
          guard (i.archiveVersionId = none)
          some (s.put (a.goto (.found i r)) (appendReceipt s.db i.id r) [.received i.id])
      | _ => none
  | .rearm _ key paused =>
      match a.phase with
      | .reconciling i none => do
          guard (i.archiveVersionId = none)
          guard (¬(a.job.row.uploadReconcileOnly = true ∧ paused = true))
          let db ← (uploadCatalogUnit s.db a.job key
            (rearmAfterProvenAbsence s.db a.job i)).toOption
          some (s.put (a.rearmed.goto (.loaded (some i))) db [.noWrite i.id "ProvenAbsent"])
      | _ => none
  | .publish _ key recorded =>
      match a.phase with
      | .found i r => do
          let db ← (uploadCatalogUnit s.db a.job key
            (publishUploadReceipt s.db a.job i r recorded)).toOption
          some (s.put (a.goto (.loaded (some i))) db [])
      | .acknowledged i r => do
          let db ← (uploadCatalogUnit s.db a.job key
            (publishUploadReceipt s.db a.job i r recorded)).toOption
          some (s.put (a.goto (.linked recorded)) db [])
      | _ => none
  | .readTarget _ key =>
      match a.phase with
      | .loaded i => do
          let _ ← (uploadCatalogUnit s.db a.job key (.ok ())).toOption
          let a' ← afterTarget s.db a i
          some (s.put a' s.db [])
      | _ => none
  | .hash _ snap =>
      match a.phase with
      | .unlinked old => do
          guard (old.all (· = snap))
          some (s.put (a.goto (.hashed snap)) s.db [])
      | _ => none
  | .prepareDigest _ key reusable =>
      match a.phase with
      | .hashed snap => do
          let db ← (uploadCatalogUnit s.db a.job key
            (.ok (setUploadSnapshot s.db a.job.row.id snap))).toOption
          some (s.put (a.goto (AttemptPhase.afterDigest snap reusable)) db [])
      | _ => none
  | .linkReusable _ key =>
      match a.phase with
      | .reusing v => do
          let db ← (uploadCatalogUnit s.db a.job key
            (.ok (linkJobVersion s.db a.job.row.id v))).toOption
          some (s.put (a.goto (.linked v)) db [])
      | _ => none
  | .pin _ key provider before =>
      match a.phase with
      | .digested snap => do
          -- read outside the lease, in a transaction of its own
          let t ← (target s.db a.job key provider).toOption
          some (s.put (a.goto (.pinned snap t before)) s.db [])
      | _ => none
  | .prepare _ key at_ =>
      match a.phase with
      | .pinned snap t before => do
          let (i, db) ← (uploadCatalogUnit s.db a.job key
            (prepare s.db a.job ⟨t, snap, a.requested, before⟩ at_)).toOption
          some (s.put (a.goto (.prepared i snap before)) db [])
      | _ => none
  | .markSendStarted _ key =>
      match a.phase with
      | .prepared i snap before => do
          guard (i.snapshot = snap ∧ i.inventory = before)
          let db ← (uploadCatalogUnit s.db a.job key (markSendStarted s.db a.job i)).toOption
          some (s.put (a.goto (.armed i)) db [.armed a.claim i.id i.token])
      | _ => none
  | .call _ =>
      match a.phase with
      | .armed i => some (s.put (a.goto (.calling i)) s.db [.called (sendCall s.db a i)])
      | _ => none
  | .passCheck _ =>
      match a.phase with
      | .calling i => do
          guard (claimOwned s.db a.job = true)
          some (s.put (a.goto (.sending i none)) s.db [.sent (sendCall s.db a i)])
      | _ => none
  | .acknowledge _ r =>
      match a.phase with
      | .sending i _ =>
          -- behind no lease: a late response is a fact as well
          some (s.put (a.goto (.sending i (some r))) (appendReceipt s.db i.id r)
            [.received i.id])
      | _ => none
  | .answer _ =>
      match a.phase with
      | .sending i (some r) => some (s.put (a.goto (.answered i r)) s.db [])
      | _ => none
  | .refuse _ op =>
      match a.phase with
      | .sending i none => do
          guard (op ∈ writeOperations)
          some (s.put (a.goto (.refused i op)) s.db [])
      | _ => none
  | .recordNoWrite _ key =>
      match a.phase with
      | .refused i op => do
          let db ← (uploadCatalogUnit s.db a.job key (recordNoWrite s.db a.job i op)).toOption
          some (s.put (a.goto .over) db [.noWrite i.id op])
      | _ => none
  | .recordResponse _ =>
      match a.phase with
      | .answered i r =>
          some (s.put (a.goto (.acknowledged i r)) (appendReceipt s.db i.id r)
            [.received i.id])
      | _ => none
  | .cleanup _ key =>
      match a.phase with
      | .linked v => do
          let db ← (uploadCatalogUnit s.db a.job key
            (.ok (settleKeeper s.db a.job.row.vaultFileId v))).toOption
          some (s.put a db [])
      | _ => none
  | .crash _ => some (s.put (a.goto .over) s.db [])
  | _ => none

/-- The attempt that takes the step. -/
def UploadAct.attempt : UploadAct → Option ℕ
  | .claim a | .loadIntent a _ | .readReceipt a _ | .linkIntent a _ | .reconciled a _
  | .rearm a _ _ | .publish a _ _ | .readTarget a _ | .hash a _ | .prepareDigest a _ _
  | .linkReusable a _ | .pin a _ _ _ | .prepare a _ _ | .markSendStarted a _ | .call a
  | .passCheck a | .acknowledge a _ | .answer a | .refuse a _ | .recordNoWrite a _
  | .recordResponse a | .cleanup a _ | .crash a => some a
  | _ => none

lemma attemptStep_eq_none {s : UploadState} {a : Attempt} {act : UploadAct}
    (h : act.attempt = none) : attemptStep s a act = none := by
  cases act with
  | others | queueJob | admitJob | setStatus | settle | select => simp only [attemptStep]
  | _ => cases h

/-- A step of the rest of the application. -/
def environmentStep (s : UploadState) : UploadAct → Option UploadState
  | .others cat vaults remediations => do
      guard (cat.jobs.map Job.lease = s.db.cat.jobs.map Job.lease)
      some { s with
        db := { s.db with
          cat := cat
          vaults := vaults
          remediations := remediations } }
  | .queueJob row => do
      guard (fileIdle s.db.cat row.vaultFileId = true ∧ row.claimToken = none)
      some { s with db := s.db.insertJob row }
  | .admitJob row intent => do
      guard (fileIdle s.db.cat row.vaultFileId = true ∧ row.claimToken = none ∧
        row.uploadReconcileOnly = true)
      let i ← s.db.intent? intent
      guard (i.vaultFileId = row.vaultFileId)
      let db ← (bindForResume (s.db.insertJob row) s.db.cat.freshJobId i).toOption
      some { s with db := db }
  | .setStatus job st drop => do
      let j ← s.db.cat.job? job
      guard (j.status.terminal = false)
      some { s with db := s.db.updateJob job (Job.setStatus st drop) fun _ => rfl }
  | .settle file keeper => some { s with db := settleKeeper s.db file keeper }
  | .select job => do
      let j ← s.db.cat.job? job
      let vault ← s.db.vaults j.vaultId
      some (s.select (fun n => ⟨j, n, vault.sourceRoot, vault.s3Bucket, vault.s3Prefix⟩)
        fun _ => rfl)
  | _ => none

/-- One step of the system. -/
def uploadStep (s : UploadState) (act : UploadAct) : Option UploadState :=
  match act.attempt with
  | none => environmentStep s act
  | some claim => do
      let a ← s.attempt? claim
      attemptStep s a act

end Frostvault
