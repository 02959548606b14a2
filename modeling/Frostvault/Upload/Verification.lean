import Frostvault.LocalFiles.World
import Frostvault.Upload.Attempts
import Frostvault.Upload.HoldFence

/-!
The verification of an upload (`process_upload`, `_resume_materialized_upload` and
`_complete_verified_upload` of `app/storage.py`, with `prepare_upload_snapshot` and
`validated_s3_proof` of `app/services/upload_snapshot.py`).

An attempt reads the catalog, the provider and the Local Copy, one action after the other, and
between two actions each of them may change in any way.  A transaction is one action: it locks
what it reads.

* `VerifyWorld`: the catalog, and what the provider and the disk would answer now;
* `prepareUploadSnapshot`, `hashStableSource`: a digest between two stats;
* `resumeMaterializedUpload`: an uncertain send is reconciled, its version published;
* `versionHead`, `evaluateProviderProof`, `streamPlaintext`: the evidence about one version;
* `completeVerifiedUpload`: the version is marked verified, and the Local Copy matched to it;
* `processUpload`: the attempt.

What only raises (claims, the identity of the source, the preflight, the pinned inventory,
progress) is one kind of action, `checkpoint`.
-/

namespace Frostvault

open Effects

/-! ### The world -/

/-- What `stat` says of the source, without following symbolic links. -/
structure SourceStat extends FileStat where
  regular : Bool
deriving DecidableEq, Repr

/-- `(st_dev, st_ino, st_size, st_mtime_ns)`. -/
def SourceStat.SameFile (a b : SourceStat) : Prop :=
  a.inode = b.inode ∧ a.size = b.size ∧ a.mtimeNs = b.mtimeNs

instance (a b : SourceStat) : Decidable (a.SameFile b) :=
  inferInstanceAs (Decidable (_ ∧ _))

/-- What hashing all that is read gives. -/
structure HashedContent where
  sha256 : Digest
  checksumType : String
  checksumSha256 : String
  partSize : ℕ
  partChecksums : List String
deriving DecidableEq, Repr

/-- The answer of `get_object`: its VersionId, and the digest and the length of its body. -/
structure Streamed where
  versionId : Option ProviderVersionId
  sha256 : Digest
  size : ℕ
deriving DecidableEq, Repr

/-- What `upload_s3_file` raises: a response it had received, or the operation that a provider that
is not ready refused before anything was written. -/
structure SendFailure where
  uploadResponse : Option UploadResponse
  noWriteOperation : Option String
deriving DecidableEq, Repr

/-- What an attempt raises. -/
inductive VerifyError
  | blocked (reason : BlockReason)
  | leaseLost
  /-- `UploadProofMismatch`. -/
  | proofMismatch
  | refused (message : String)
  | os
  | provider (e : ProviderError)
  | sendFailed
deriving DecidableEq, Repr

/-- The exception of a transaction. -/
def VerifyError.ofUpload : UploadError → VerifyError
  | .blocked reason => .blocked reason
  | .leaseLost => .leaseLost

/-- The exception of a reconciliation. -/
def VerifyError.ofReconcile : ReconcileError → VerifyError
  | .blocked reason => .blocked reason
  | .provenAbsent => .blocked .ambiguousSend
  | .provider e => .provider e
  | .stopped => .leaseLost

/-- The catalog, and what everything else would answer at one moment. -/
structure VerifyWorld where
  db : CleanupDb
  /-- `archive_versions.upload_verification_requested`. -/
  requested : RowId → Option VerificationMode
  now : Stamp
  /-- The checks that only raise. -/
  checkpoint : Except VerifyError Unit
  /-- `_automatic_upload_ready`. -/
  automaticReady : Bool
  /-- `_upload_protection_paused`. -/
  protectionPaused : Bool
  view : ProviderView
  /-- The outcome of `upload_s3_file`. -/
  sent : Except SendFailure UploadResponse
  body : ObjectKey → ProviderVersionId → Except ProviderError Streamed
  /-- `is_file` of the path of the Local Copy, which follows symbolic links. -/
  isFile : Bool
  /-- Its `stat`. -/
  path : Option SourceStat
  /-- `fstat` of a descriptor opened on it. -/
  descriptor : Option SourceStat
  reading : HashedContent

/-! ### What an attempt knows of a version -/

/-- How an attempt comes to a version. -/
inductive VerifyEntry
  | linked | fresh | reusedVerified | reusedUnverified
deriving DecidableEq, Repr

/-- The `target` of an attempt with its `upload_digest`, `snapshot` and `requested_mode`. -/
structure VerifyTarget where
  entry : VerifyEntry
  versionId : RowId
  objectKey : ObjectKey
  providerVersionId : ProviderVersionId
  cloudSize : Option ℕ
  uploadDigest : Digest
  snapshot : Option UploadSnapshot
  requestedMode : VerificationMode
deriving DecidableEq, Repr

/-- What the catalog says of a version, as it was read or published. -/
structure Baseline where
  row : RowId
  objectKey : ObjectKey
  providerVersionId : Option ProviderVersionId
  snapshot : Option UploadSnapshot
  /-- `jobs.upload_plaintext_sha256` of the Job. -/
  captured : Option Digest
deriving DecidableEq, Repr

/-- What is recorded of a quiet action: neither a HEAD of the verification nor a completion. -/
inductive QuietEvent
  | checked
  /-- A version is read from the catalog, or published in it. -/
  | named (b : Option Baseline)
  /-- The response of an upload. -/
  | sent (r : UploadResponse)
  | streamed (key : ObjectKey) (v : ProviderVersionId) (r : Except ProviderError Streamed)
  /-- A read of a reconciliation. -/
  | reconciled (r : ReconcileRead)
  /-- The version of an uncertain send, as a reconciliation found it. -/
  | adopted (i : UploadIntent) (r : UploadResponse)
  /-- A `stat` of the path. -/
  | statted (st : Option SourceStat)
  /-- An `fstat` of the descriptor. -/
  | opened (st : Option SourceStat)
  /-- Everything was read through the descriptor. -/
  | readThrough (sha256 : Digest)
  /-- `local_before`. -/
  | copyRead (before : Option CopyGeneration)
  | mismatched (row : RowId)

/-- What is recorded of an action. -/
inductive VerifyEvent
  | quiet (e : QuietEvent)
  /-- A HEAD of an exact version, with its `ChecksumMode`. -/
  | headed (key : ObjectKey) (v : ProviderVersionId) (checksumMode : Bool)
      (r : Except ProviderError Head)
  /-- `persist_verification` has committed. -/
  | persisted (t : VerifyTarget) (c : Completion)

/-- Programs that ask for no HEAD and complete nothing. -/
abbrev Quietly := Prog VerifyWorld QuietEvent VerifyError

/-- The programs of this module. -/
abbrev Verifying := Prog VerifyWorld VerifyEvent VerifyError

instance : MonadLift Quietly Verifying :=
  ⟨fun p => p.within id (fun w _ => w) .quiet id⟩

/-! ### Single actions -/

/-- A check that only raises. -/
def checkpoint : Quietly Unit := .ask (fun _ => .checked) VerifyWorld.checkpoint

/-- Something is looked up. -/
def consult {α : Type} (f : VerifyWorld → α) : Quietly α :=
  .ask (fun _ => .checked) fun w => .ok (f w)

/-- `path.stat(follow_symlinks=False)`. -/
def statPath : Quietly (Option SourceStat) :=
  .act (fun w => .statted w.path) id fun w => .ret w.path

/-- `os.fstat`. -/
def statDescriptor : Quietly (Option SourceStat) :=
  .act (fun w => .opened w.descriptor) id fun w => .ret w.descriptor

/-- Read and hash to the end. -/
def readDescriptor : Quietly HashedContent :=
  .act (fun w => .readThrough w.reading.sha256) id fun w => .ret w.reading

/-- `head_object` of an exact version. -/
def headExact (key : ObjectKey) (v : ProviderVersionId) (checksumMode : Bool) :
    Verifying (Except ProviderError Head) :=
  .act (fun w => .headed key v checksumMode (w.view.head key v checksumMode)) id
    fun w => .ret (w.view.head key v checksumMode)

/-- The answer of the provider, or its exception. -/
def orRaise {α : Type} : Except ProviderError α → Quietly α
  | .ok a => .ret a
  | .error e => .raise (.provider e)

/-- The tables of the journal are written. -/
def VerifyWorld.setUpload (w : VerifyWorld) (db : UploadDb) : VerifyWorld :=
  { w with db := { w.db with upload := db } }

/-! ### The Local Copy -/

/-- `MAX_OBJECT_SIZE`. -/
def maxObjectSize : ℕ := 5 * 1024 ^ 4

/-- The snapshot of what was read. -/
def HashedContent.snapshot (r : HashedContent) (size : ℕ) : UploadSnapshot :=
  ⟨size, r.sha256, r.checksumType, r.checksumSha256, r.partSize, r.partChecksums⟩

/-- A stat that has to be there. -/
def present (st : Option SourceStat) : Quietly SourceStat :=
  match st with
  | some st => .ret st
  | none => .raise .os

/-- `prepare_upload_snapshot`. -/
def prepareUploadSnapshot : Quietly (UploadSnapshot × SourceStat) := do
  checkpoint
  let before ← present (← statPath)
  .require (before.regular = true) (.refused "Upload Snapshot requires a regular file")
  .require (before.size ≤ maxObjectSize) (.refused "Upload Snapshot exceeds S3 object size limit")
  let opened ← present (← statDescriptor)
  .require (opened.toFileStat = before.toFileStat)
    (.refused "Local file changed since fingerprinting")
  checkpoint
  let reading ← readDescriptor
  checkpoint
  let after ← present (← statDescriptor)
  .require (after.toFileStat = before.toFileStat)
    (.refused "Local file changed since fingerprinting")
  let last ← present (← statPath)
  .require (last.toFileStat = before.toFileStat)
    (.refused "Local file changed since fingerprinting")
  pure (reading.snapshot before.size, before)

/-- `hash_stable_regular_file` (`app/services/local_files.py`). -/
def hashStableSource : Quietly (Digest × SourceStat) := do
  let before ← present (← statPath)
  .require (before.regular = true) (.refused "Local file is not a regular file")
  let opened ← present (← statDescriptor)
  .require (opened.regular = true ∧ before.SameFile opened)
    (.refused "Local file changed since fingerprinting")
  let reading ← readDescriptor
  let after ← present (← statDescriptor)
  .require (before.SameFile after) (.refused "Local file changed since fingerprinting")
  pure (reading.sha256, after)

/-- `_local_stat_unchanged`. -/
def localStatUnchanged (previous : SourceStat) : Quietly Bool := do
  let current ← statPath
  pure (current.any fun st => st.toFileStat = previous.toFileStat)

/-- What `_inspect_local_copy_for_upload_snapshot` returns. -/
structure Inspection where
  digest : Option Digest
  stat : Option SourceStat
  matchesSnapshot : Bool

/-- The part of `_inspect_local_copy_for_upload_snapshot` that looks at the Local Copy anew. -/
def inspectAnew (totalBytes : Option ℕ) (uploadDigest : Digest) : Quietly Inspection := do
  match ← statPath with
  | none => pure ⟨none, none, false⟩
  | some current =>
      if current.regular = false then pure ⟨none, none, false⟩
      else if totalBytes.any (· ≠ current.size) then pure ⟨none, some current, false⟩
      else do
        match ← hashStableSource.outcome with
        | .error _ => pure ⟨none, some current, false⟩
        | .ok (digest, hashed) => pure ⟨some digest, some hashed, digest = uploadDigest⟩

/-- `_inspect_local_copy_for_upload_snapshot`; `local?` is the digest and the stat of an earlier
snapshot. -/
def inspectLocalCopy (totalBytes : Option ℕ) (uploadDigest : Digest)
    (local? : Option (Digest × SourceStat)) : Quietly Inspection := do
  match local? with
  | none => inspectAnew totalBytes uploadDigest
  | some (digest, st) => do
      if ← localStatUnchanged st then pure ⟨some digest, some st, digest = uploadDigest⟩
      else inspectAnew totalBytes uploadDigest

/-! ### The catalog -/

/-- A row of `get_job_target`. -/
structure JobTarget where
  job : Job
  version : Option ArchiveVersion
  snapshot : Option UploadSnapshot
  requested : Option VerificationMode
  cloudOnlyVersionId : Option RowId

/-- `get_job_target`. -/
def jobUploadTarget (w : VerifyWorld) (id : JobId) : Option JobTarget :=
  (w.db.upload.cat.job? id).map fun j =>
    { job := j
      version := j.archiveVersionId.bind w.db.upload.cat.version?
      snapshot := j.archiveVersionId.bind w.db.snapshots
      requested := j.archiveVersionId.bind w.requested
      cloudOnlyVersionId := ((w.db.file? j.vaultFileId).bind VaultFile.localCopy).bind
        LocalCopy.cloudOnlyVersionId }

/-- What a row of a version says. -/
def ArchiveVersion.baseline (v : ArchiveVersion) (snapshot : Option UploadSnapshot)
    (captured : Option Digest) : Baseline :=
  ⟨v.id, v.objectKey, v.providerVersionId, snapshot, captured⟩

def JobTarget.baseline (x : JobTarget) : Option Baseline :=
  x.version.map fun v => v.baseline x.snapshot x.job.uploadPlaintextSha256

/-- Not waiting for a restore. -/
def ArchiveVersion.notRestoring (v : ArchiveVersion) : Bool := v.restoreState ≠ some .restoring

/-- The verified version of `find_reusable_upload_version`: the newest one, with this digest. -/
def reusableVerified (db : CleanupDb) (file : FileId) (digest : Digest) : Option ArchiveVersion :=
  (newest ((db.versions file).filter fun v =>
    v.integrity = .verified && v.availability = .available)).filter fun v =>
      v.plaintextSha256 = some digest && v.notRestoring

/-- Its unverified version: an upload Job captured this digest for it. -/
def reusableUnverified (db : CleanupDb) (file : FileId) (digest : Digest) :
    Option ArchiveVersion :=
  newest ((db.versions file).filter fun v =>
    v.integrity = .unverified && v.availability = .available && v.notRestoring &&
      db.upload.cat.jobs.any fun j => j.archiveVersionId = some v.id && j.vaultFileId = file &&
        (db.file? file).any (fun f => f.vaultId = j.vaultId) && j.action = .upload &&
        j.uploadPlaintextSha256 = some digest)

/-- `find_reusable_upload_version`. -/
def findReusableUploadVersion (db : CleanupDb) (job : WorkerJob) (digest : Digest)
    (provider : String) : Outcome (Option ArchiveVersion) :=
  match reusableVerified db job.row.vaultFileId digest with
  | none => pure (reusableUnverified db job.row.vaultFileId digest)
  | some v => do
      if ← hasLineage db v job.row.vaultFileId job.row.vaultId (some job.s3Bucket) (some provider)
      then pure (some v)
      else pure (reusableUnverified db job.row.vaultFileId digest)

/-- `set_upload_snapshot`, which raises when the Job has another snapshot. -/
def keepUploadSnapshot (w : VerifyWorld) (job : WorkerJob) (snap : UploadSnapshot) :
    Except VerifyError VerifyWorld :=
  if ((w.db.upload.cat.job? job.row.id).bind Job.uploadSnapshot).all (· = snap) then
    .ok (w.setUpload (setUploadSnapshot w.db.upload job.row.id snap))
  else .error (.refused "Upload Snapshot is immutable for an admitted intent")

/-- The checks of `set_version_upload_snapshot`. -/
def versionSnapshotStands (w : VerifyWorld) (cat : Catalog) (row : RowId) (intent : UploadIntent) :
    Except VerifyError Unit :=
  match w.db.snapshots row with
  | none =>
      if (cat.version? row).any fun v => v.integrity = .verified then
        .error (.refused
          "Cannot reconstruct Upload Snapshot evidence for a verified Archive Version")
      else .ok ()
  | some snap =>
      if snap = intent.snapshot ∧ w.requested row = some intent.requested then .ok ()
      else .error (.refused "Archive Version Upload Snapshot is immutable")

/-- The callback of `_publish_upload_receipt`, for the VersionId of the response. -/
def publishReceipt (w : VerifyWorld) (job : WorkerJob) (intent : UploadIntent)
    (response : UploadResponse) (version : ProviderVersionId) :
    Except VerifyError (RowId × VerifyWorld) := do
  let o := publishedVersion job intent response version w.now
  (requireTarget w.db.upload job intent.target).mapError .ofUpload
  match recordVersion w.db.upload.cat job.row.vaultId o with
  | none => .error (.refused "Archive Version belongs to another file")
  | some (cat, row) => do
      versionSnapshotStands w cat row intent
      let _ ← keepUploadSnapshot w job intent.snapshot
      pure (row,
        { w with
          db := publishWrites job intent o w.db
          requested := Function.update w.requested row (some intent.requested) })

section Attempt

variable (names : KeyNames) (vaults : VaultTable) (job : WorkerJob) (client : ProviderClient)
  (totalBytes : Option ℕ)

/-- `_upload_catalog_unit`. -/
def catalogUnit {α : Type} (event : Except VerifyError α → QuietEvent)
    (mutation : VerifyWorld → Except VerifyError (α × VerifyWorld)) : Quietly α :=
  .commit (fun w => event ((run w).map Prod.fst)) run
where
  /-- The transaction. -/
  run (w : VerifyWorld) : Except VerifyError (α × VerifyWorld) := do
    (uploadCatalogUnit w.db.upload job (names.keyOf job.s3Prefix job.row.path)
      (pure ())).mapError .ofUpload
    mutation w

/-- A unit on the tables of the journal. -/
def journalUnit {α : Type} (mutation : UploadDb → Outcome (α × UploadDb)) : Quietly α :=
  catalogUnit names job (fun _ => .checked) fun w =>
    ((mutation w.db.upload).mapError .ofUpload).map fun r => (r.1, w.setUpload r.2)

/-- `get_job_target`, in a unit. -/
def readJobTarget : Quietly (Option JobTarget) :=
  catalogUnit names job (fun
    | .ok x => .named (x.bind JobTarget.baseline)
    | .error _ => .checked) fun w => .ok (jobUploadTarget w job.row.id, w)

/-- `link_job_version`, in a unit. -/
def linkVersion (row : RowId) : Quietly Unit :=
  journalUnit names job fun db => pure ((), linkJobVersion db job.row.id row)

/-- `append_receipt`: a transaction of its own. -/
def appendUploadReceipt (event : QuietEvent) (i : UploadIntent) (r : UploadResponse) :
    Quietly Unit :=
  .commit (fun _ => event) fun w => .ok ((), w.setUpload (appendReceipt w.db.upload i.id r))

/-- `_publish_upload_receipt`. -/
def publishExactReceipt (i : UploadIntent) (response : UploadResponse) :
    Quietly (RowId × ProviderVersionId) := do
  checkpoint
  match response.versionId with
  | none => .raise (.blocked .ambiguousReceipt)
  | some v => do
      .require (v ≠ nullVersionId ∧ v ∉ i.inventory.versions) (.blocked .ambiguousReceipt)
      let row ← catalogUnit names job (fun
        | .ok row => .named (some ⟨row, i.target.key, some v, some i.snapshot,
            some i.snapshot.plaintextSha256⟩)
        | .error _ => .checked) fun w => publishReceipt w job i response v
      pure (row, v)

/-! ### An uncertain send -/

/-- What `_resume_materialized_upload` does for an intent that has its version. -/
def resumeLinked (i : UploadIntent) (row : RowId) (linked : Option RowId)
    (raw : Option UploadResponse) : Quietly Unit := do
  let exact ← consult fun w =>
    ((w.db.versions job.row.vaultFileId).find? fun v => v.id = row, w.db.snapshots row)
  .require (raw.isSome ∧ exact.1.any (fun v => v.objectKey = i.target.key ∧
      v.providerVersionId = raw.bind UploadResponse.versionId) ∧
    exact.2 = some i.snapshot ∧ linked.all (· = row)) (.blocked .ambiguousReceipt)
  match linked with
  | none => linkVersion names job row
  | some _ => pure ()

/-- `_rearm_after_proven_absence`. -/
def rearmUpload (i : UploadIntent) : Quietly Unit :=
  catalogUnit names job (fun _ => .checked) fun w => do
    let db ← (rearmAfterProvenAbsence w.db.upload job i).mapError .ofUpload
    let w' := w.setUpload db
    pure ((), { w' with
      db := { w'.db with blocks := w'.db.blocks.filter (· ≠ job.row.vaultFileId) } })

/-- What `_resume_materialized_upload` does for an intent without a version.  It says whether the
Job is still one that only reconciles. -/
def resumeUncertain (i : UploadIntent) (raw : Option UploadResponse) : Quietly Bool := do
  let outcome ← (reconcile client i raw).outcome.within VerifyWorld.view
    (fun v w => { w with view := v }) QuietEvent.reconciled VerifyError.ofReconcile
  match outcome with
  | .error .provenAbsent => do
      let paused ← consult VerifyWorld.protectionPaused
      .require (¬(job.row.uploadReconcileOnly = true ∧ paused = true))
        (.blocked .protectionPaused)
      rearmUpload names job i
      pure false
  | .error e => .raise (.ofReconcile e)
  | .ok response => do
      appendUploadReceipt (.adopted i response) i response
      match response.versionId with
      | none => .raise (.refused "KeyError")
      | some v => do
          .require (raw.all fun r => (r.proof v i.snapshot).isSome) (.blocked .proofMismatch)
          .require ((checkS3Proof response false v i.snapshot false).isSome)
            (.blocked .proofMismatch)
          let _ ← publishExactReceipt names job i response
          pure job.row.uploadReconcileOnly

/-- `_resume_materialized_upload`. -/
def resumeMaterializedUpload (i : UploadIntent) : Quietly Bool := do
  journalUnit names job fun db => (requireTarget db job i.target).map fun _ => ((), db)
  let (linked, raw) ← .ask (fun _ => .checked) fun w =>
    ((receipt w.db.upload i.id).mapError .ofUpload).map fun raw =>
      (jobVersion w.db.upload job.row.id, raw)
  .require (raw.all fun r => r.versionId.any fun v => (r.proof v i.snapshot).isSome)
    (.blocked .proofMismatch)
  match i.archiveVersionId with
  | some row => do
      resumeLinked names job i row linked raw
      pure job.row.uploadReconcileOnly
  | none => resumeUncertain names job client i raw

/-! ### Evidence about one version -/

/-- `mark_version_mismatch`, in a unit. -/
def markMismatch (t : VerifyTarget) : Quietly Unit :=
  catalogUnit names job (fun _ => .mismatched t.versionId) fun w =>
    .ok ((), { w with
      db := onCatalog (fun cat => markVersionMismatch cat t.versionId t.uploadDigest) w.db })

/-- `evaluate_provider_proof`: whether a response proves the snapshot; one that contradicts it ends
the attempt. -/
def evaluateProviderProof (t : VerifyTarget) (snap : UploadSnapshot) (proof : UploadResponse)
    (deleteMarker completion : Bool) : Quietly Bool :=
  match checkS3Proof proof deleteMarker t.providerVersionId snap completion with
  | some proven => pure proven
  | none => do
      markMismatch names job t
      .raise .proofMismatch

/-- `_verification_version_head` (`app/services/s3_copy.py`). -/
def verificationVersionHead (t : VerifyTarget) : Verifying Head := do
  let head ← orRaise (← headExact t.objectKey t.providerVersionId false)
  .require head.response.versionId.isSome
    (.refused "Upload verification found no S3 VersionId")
  .require (head.response.versionId = some t.providerVersionId)
    (.refused "Archive Version changed during upload verification")
  .require (t.cloudSize.all fun size => head.response.contentLength.all (· = size))
    (.refused "Archive Version size changed during upload verification")
  pure head

/-- `version_head`: the token of the version, when it has one, is that of its intent. -/
def versionHead (t : VerifyTarget) : Verifying Head := do
  let head ← verificationVersionHead t
  match head.uploadToken with
  | none => pure head
  | some token => do
      let known ← consult fun w => w.db.upload.intents.find? fun i =>
        i.archiveVersionId = some t.versionId && i.vaultFileId = job.row.vaultFileId &&
          i.token = token
      .require known.isSome (.blocked .ambiguousReceipt)
      .require (known.all fun i => i.target.provider = client.identity ∧
        i.target.bucket = job.s3Bucket ∧ i.target.key = t.objectKey) (.blocked .identityChanged)
      pure head

/-- The ordinary HEAD of a version, evaluated when there is a snapshot. -/
def evaluateHead (t : VerifyTarget) (head : Head) : Quietly Unit :=
  match t.snapshot with
  | none => pure ()
  | some snap => do
      let _ ← evaluateProviderProof names job t snap head.response head.deleteMarker false
      pure ()

/-- `_stream_plaintext_for_verification`. -/
def streamPlaintext (t : VerifyTarget) : Quietly (Digest × ℕ) := do
  checkpoint
  let answer ← .act (fun w => .streamed t.objectKey t.providerVersionId
    (w.body t.objectKey t.providerVersionId)) id
    fun w => orRaise (w.body t.objectKey t.providerVersionId)
  .require (answer.versionId = some t.providerVersionId)
    (.refused "S3 returned a different verification VersionId")
  checkpoint
  pure (answer.sha256, answer.size)

/-- `set_version_verification_method`, in a unit; its columns are left out. -/
def setVerificationMethod : Quietly Unit :=
  catalogUnit names job (fun _ => .checked) fun w => .ok ((), w)

/-- The checksum HEAD: whether it proves the snapshot.  A provider without checksums proves
nothing. -/
def checksumHead (t : VerifyTarget) (snap : UploadSnapshot) : Verifying Bool := do
  match ← headExact t.objectKey t.providerVersionId true with
  | .ok head => evaluateProviderProof names job t snap head.response head.deleteMarker false
  | .error .unsupportedChecksum => pure false
  | .error e => .raise (.provider e)

/-- `checksum_proven`; with `providerProof` the completion of the upload proved the snapshot. -/
def checksumProven (t : VerifyTarget) (providerProof : Bool) : Verifying Bool :=
  match t.requestedMode, t.snapshot with
  | .s3Checksum, some snap =>
      if providerProof then pure true else checksumHead names job t snap
  | _, _ => pure false

/-! ### Completion -/

/-- The Local Copy as `persist_verification` compares it. -/
def copyGeneration (db : CleanupDb) (file : FileId) : Option CopyGeneration :=
  ((db.file? file).bind VaultFile.localCopy).map LocalCopy.generation

/-- The Local Copy is read. -/
def readCopy : Quietly (Option CopyGeneration) :=
  .act (fun w => .copyRead (copyGeneration w.db job.row.vaultFileId)) id
    fun w => .ret (copyGeneration w.db job.row.vaultFileId)

/-- `local_observation_stable`. -/
def localObservationStable (observedStat : Option SourceStat) : Quietly Bool :=
  match observedStat with
  | none => pure false
  | some st => localStatUnchanged st

/-- `_complete_verified_upload`, to the end of `persist_verification`. -/
def completeVerifiedUpload (t : VerifyTarget) (markVerified : Bool)
    (local? : Option (Digest × SourceStat)) : Verifying Unit := do
  checkpoint
  let before ← readCopy job
  let seen ← inspectLocalCopy totalBytes t.uploadDigest local?
  let stable ← localObservationStable seen.stat
  let verifiedAt ← consult VerifyWorld.now
  let c : Completion :=
    { version := t.versionId
      uploadDigest := t.uploadDigest
      markVerified := markVerified
      before := before
      stat := if stable then seen.stat.map fun st => (st.size, st.mtimeNs) else none
      observedDigest := seen.digest
      matchesSnapshot := seen.matchesSnapshot
      verifiedAt := verifiedAt }
  .commit (fun w => if ((verifyTxn names vaults job c).alone w.db).isSome then .persisted t c
      else .quiet .checked) fun w =>
    match (verifyTxn names vaults job c).alone w.db with
    | none => .error .leaseLost
    | some db => .ok ((), { w with db := db })
  -- the cleanup of the older versions follows
  checkpoint

/-- The evidence about a version whose first HEAD was answered, and its completion. -/
def verifyVersion (t : VerifyTarget) (head : Head) (providerProof : Bool)
    (local? : Option (Digest × SourceStat)) : Verifying Unit := do
  evaluateHead names job t head
  checkpoint
  let proven ← checksumProven names job t providerProof
  setVerificationMethod names job
  if proven then completeVerifiedUpload names vaults job totalBytes t true local?
  else do
    let (remoteDigest, remoteSize) ← streamPlaintext t
    setVerificationMethod names job
    let finalHead ← versionHead job client t
    evaluateHead names job t finalHead
    .require (t.cloudSize.all (· = remoteSize))
      (.refused "Cloud verification stream length did not match the Archive Version")
    if remoteDigest = t.uploadDigest then
      completeVerifiedUpload names vaults job totalBytes t true local?
    else do
      checkpoint
      markMismatch names job t
      .raise (.refused "Cloud copy digest does not match local file")

/-! ### The attempt -/

/-- `_require_linked_upload_digest`. -/
def requireLinkedUploadDigest (x : JobTarget) (v : ArchiveVersion) : Except VerifyError Digest :=
  match x.snapshot with
  | some snap =>
      if x.job.uploadPlaintextSha256.all (· = snap.plaintextSha256) then .ok snap.plaintextSha256
      else .error (.refused "Upload Snapshot digest differs from durable upload digest")
  | none =>
      match x.job.uploadPlaintextSha256,
        if v.integrity = .verified then v.plaintextSha256 else none with
      | some digest, _ => .ok digest
      | none, some digest => .ok digest
      | none, none =>
          .error (.refused "The linked Archive Version has no durable upload fingerprint")

/-- The version of a Job that is linked to one. -/
def linkedTarget (x : JobTarget) : Except VerifyError (ArchiveVersion × VerifyTarget) :=
  match x.version with
  | none => .error (.refused "The linked Archive Version cannot be verified safely")
  | some v => do
      let digest ← requireLinkedUploadDigest x v
      if v.integrity = .mismatch then
        throw (.refused "The linked Archive Version already mismatches the Local Copy")
      if v.availability ≠ .available then
        throw (.refused "The linked Archive Version is no longer available")
      match v.providerVersionId with
      | none => throw (.refused "The linked Archive Version cannot be verified safely")
      | some provider => pure (v,
          { entry := .linked
            versionId := v.id
            objectKey := v.objectKey
            providerVersionId := provider
            cloudSize := v.size
            uploadDigest := digest
            snapshot := x.snapshot
            requestedMode := x.requested.getD .readBack })

/-- A retry after the catalog linkage only verifies. -/
def verifyLinked (x : JobTarget) : Verifying Unit := do
  checkpoint
  let (v, t) ← .ofExcept (linkedTarget x)
  let head ← versionHead job client t
  if v.integrity = .verified then do
    evaluateHead names job t head
    completeVerifiedUpload names vaults job totalBytes t false none
  else verifyVersion names vaults job client totalBytes t head false none

/-- A verified version with the bytes of the Local Copy is reused. -/
def reuseVerified (snap : UploadSnapshot) (st : SourceStat) (v : ArchiveVersion) :
    Verifying Unit := do
  linkVersion names job v.id
  match ← readJobTarget names job with
  | none => .raise (.refused "AttributeError")
  | some x => do
      let t : VerifyTarget :=
        { entry := .reusedVerified
          versionId := v.id
          objectKey := (x.version.map ArchiveVersion.objectKey).getD v.objectKey
          providerVersionId := (x.version.bind ArchiveVersion.providerVersionId).getD nullVersionId
          cloudSize := x.version.bind ArchiveVersion.size
          uploadDigest := snap.plaintextSha256
          snapshot := x.snapshot
          requestedMode := x.requested.getD .readBack }
      match x.snapshot with
      | none => pure ()
      | some s => do
          .require (s.plaintextSha256 = snap.plaintextSha256)
            (.refused "Upload Snapshot digest differs from durable upload digest")
          .require (x.version.any fun u => u.providerVersionId.isSome)
            (.refused "Upload verification target has no exact S3 VersionId")
          evaluateHead names job t (← versionHead job client t)
      completeVerifiedUpload names vaults job totalBytes t false
        (some (snap.plaintextSha256, st))

/-- An unverified version for which an upload captured the bytes of the Local Copy is verified
with its own snapshot. -/
def reuseUnverified (snap : UploadSnapshot) (st : SourceStat) (v : ArchiveVersion)
    (snapshot : Option UploadSnapshot) (requested : Option VerificationMode) : Verifying Unit := do
  match v.providerVersionId with
  | none => .raise (.refused "The linked Archive Version cannot be verified safely")
  | some provider => do
      linkVersion names job v.id
      let t : VerifyTarget :=
        { entry := .reusedUnverified
          versionId := v.id
          objectKey := v.objectKey
          providerVersionId := provider
          cloudSize := v.size
          uploadDigest := snap.plaintextSha256
          snapshot := snapshot
          requestedMode := requested.getD .readBack }
      let head ← versionHead job client t
      verifyVersion names vaults job client totalBytes t head false
        (some (snap.plaintextSha256, st))

/-- `inventory` of the key of the path. -/
def readKeyInventory (key : ObjectKey) : Quietly Inventory :=
  .ask (fun _ => .checked) fun w =>
    match inventory key w.view.bucketReady (w.view.versionPages key) with
    | .ok inv => .ok inv
    | .error (.blocked reason) => .error (.blocked reason)
    | .error (.provider e) => .error (.provider e)

/-- `upload_s3_file`, and what is kept of its failure. -/
def sendFile (i : UploadIntent) : Quietly UploadResponse := do
  let outcome ← .act (fun w => match w.sent with
    | .ok r => .sent r
    | .error _ => .checked) id fun w => .ret w.sent
  match outcome with
  | .ok response => do
      appendUploadReceipt .checked i response
      pure response
  | .error failure => do
      match failure.uploadResponse, failure.noWriteOperation with
      | some response, _ => appendUploadReceipt .checked i response
      | none, some operation =>
          journalUnit names job fun db => (recordNoWrite db job i operation).map fun db => ((), db)
      | none, none => pure ()
      .raise .sendFailed

/-- The intent of a new send, committed before the request. -/
def freezeSend (snap : UploadSnapshot) (requestedMode : VerificationMode) :
    Quietly UploadIntent := do
  checkpoint
  let key := names.keyOf job.s3Prefix job.row.path
  let pinned ← .ask (fun _ => .checked) fun w =>
    (target w.db.upload job key client.identity).mapError .ofUpload
  let before ← readKeyInventory key
  let again ← readKeyInventory key
  .require (before = again) (.blocked .inventoryChanged)
  let i ← catalogUnit names job (fun _ => .checked) fun w =>
    ((prepare w.db.upload job ⟨pinned, snap, requestedMode, before⟩ w.now).mapError
      .ofUpload).map fun r => (r.1, w.setUpload r.2)
  .require (i.snapshot = snap ∧ i.inventory = before) (.blocked .identityChanged)
  journalUnit names job fun db => (markSendStarted db job i).map fun db => ((), db)
  pure i

/-- A new version. -/
def uploadFresh (snap : UploadSnapshot) (st : SourceStat) (requestedMode : VerificationMode) :
    Verifying Unit := do
  let i ← freezeSend names job client snap requestedMode
  let response ← sendFile names job i
  let (row, v) ← publishExactReceipt names job i response
  let t : VerifyTarget :=
    { entry := .fresh
      versionId := row
      objectKey := names.keyOf job.s3Prefix job.row.path
      providerVersionId := v
      cloudSize := some snap.size
      uploadDigest := snap.plaintextSha256
      snapshot := some snap
      requestedMode := requestedMode }
  let proven ← evaluateProviderProof names job t snap response false true
  let head ← versionHead job client t
  verifyVersion names vaults job client totalBytes t head proven (some (snap.plaintextSha256, st))

/-- `prepare_digest`: the version that can be reused, with its own evidence. -/
def prepareDigest (snap : UploadSnapshot) :
    Quietly (Option (ArchiveVersion × Option UploadSnapshot × Option VerificationMode)) :=
  catalogUnit names job (fun
    | .ok reusable => .named (reusable.map fun r =>
        r.1.baseline r.2.1 (some snap.plaintextSha256))
    | .error _ => .checked) fun w => do
      let w' ← keepUploadSnapshot w job snap
      let reusable ← (findReusableUploadVersion w'.db job snap.plaintextSha256
        client.identity).mapError .ofUpload
      pure (reusable.map fun v => (v, w'.db.snapshots v.id, w'.requested v.id), w')

/-- `_automatic_upload_ready`, which only an automatic Job has to be. -/
def automaticUploadReady : Quietly Bool :=
  if job.row.origin = .automatic then consult VerifyWorld.automaticReady else pure true

/-- A Job without a version. -/
def uploadUnlinked (x : Option JobTarget) (requestedMode : VerificationMode) : Verifying Unit := do
  checkpoint
  let (snap, st) ← prepareUploadSnapshot
  .require ((x.bind fun x => x.job.uploadSnapshot).all (· = snap))
    (.refused "Local file changed since fingerprinting")
  checkpoint
  if ← automaticUploadReady job then do
    checkpoint
    match ← prepareDigest names job client snap with
    | some (v, snapshot, requested) =>
        if v.integrity = .verified then
          reuseVerified names vaults job client totalBytes snap st v
        else
          reuseUnverified names vaults job client totalBytes snap st v snapshot requested
    | none => uploadFresh names vaults job client totalBytes snap st requestedMode
  else checkpoint

/-- The intent an attempt resumes, and what it does about its send; the Job may no longer be one
that only reconciles. -/
def resumeUpload : Quietly (Option UploadIntent × Bool) := do
  let intent ← journalUnit names job fun db => loadIntent db job
  match intent with
  | none => pure (none, job.row.uploadReconcileOnly)
  | some i =>
      if i.sendStarted then do
        checkpoint
        let only ← resumeMaterializedUpload names job client i
        pure (some i, only)
      else pure (some i, job.row.uploadReconcileOnly)

/-- `process_upload`. -/
def processUpload : Verifying Unit := do
  checkpoint
  if ← automaticUploadReady job then do
    checkpoint
    let localPresent ← consult VerifyWorld.isFile
    let (intent, only) ← resumeUpload names job client
    let x ← readJobTarget names job
    let requestedMode := match intent with
      | some i => i.requested
      | none => (x.bind fun x => x.job.uploadVerificationRequested).getD .readBack
    match x.bind fun x => x.job.archiveVersionId.map fun _ => x with
    | some x => verifyLinked names vaults job client totalBytes x
    | none => do
        .require (only = false) (.blocked .ambiguousSend)
        .require (localPresent = true)
          (.refused "The file is no longer available in the source folder")
        .require ((x.bind JobTarget.cloudOnlyVersionId).isNone)
          (.refused ("Upload held back: the path holds different content than a file kept " ++
            "only in the cloud"))
        uploadUnlinked names vaults job client totalBytes x requestedMode
  else checkpoint

end Attempt

end Frostvault
