import Frostvault.LocalFiles.World
import Frostvault.Observation.Revocation

/-!
Recoveries (`process_recover`, `download_exact_version_plaintext` and `_reconcile_recover_job`
of `app/storage.py`).

The worker downloads the exact version to a temporary, hashes it, and under the scan lock of the
Vault renames it to its destination and records the Local Copy.  After a restart the Job is
decided by what is at the destination.

* `recoverTarget`: the version, when it may be recovered;
* `download`, `publish`, `processRecover`: the worker;
* `removeAbandonedRestoreFiles`, `adopt`, `reconcileRecoverJob`: the restart.
-/

namespace Frostvault

open Effects Directory

/-! ### The version -/

/-- `get_job_target`: the Job's version, and the Local Copy of its file. -/
def jobTarget (cat : Catalog) (job : JobId) : Option (ArchiveVersion × Option LocalCopy) := do
  let row ← cat.job? job
  let version ← row.archiveVersionId.bind cat.version?
  some (version, (cat.file? row.vaultFileId).bind VaultFile.localCopy)

/-- The checks of `process_recover` on its target. -/
def recoverTarget (cat : Catalog) (job : JobId) : Except LocalError RecoverTarget :=
  match jobTarget cat job with
  | none => .error (.refused "The file is not available in the cloud")
  | some (v, lc) =>
      match v.providerVersionId, v.plaintextSha256 with
      | some _, some sha =>
          if v.integrity ≠ .verified ∨ v.availability ≠ .available then
            .error (.refused "The file is not available in the cloud")
          else if lc.any fun lc => lc.presence = .present then
            .error (.refused "A local copy is already present")
          else .ok ⟨v.id, sha⟩
      | _, _ => .error (.refused "The file is not available in the cloud")

/-- The version a restart compares with. -/
def restartTarget (cat : Catalog) (job : JobId) : Option RecoverTarget := do
  let (v, _) ← jobTarget cat job
  let sha ← v.plaintextSha256
  some ⟨v.id, sha⟩

/-! ### The download -/

/-- The client creates the file it fills. -/
def startDownload (d : Download) : Working Unit :=
  .commit (fun _ => .created d.filling) fun w => match w.fetched with
    | .error e => .error e
    | .ok n => .ok ((), { w with
        downloads := w.downloads ++ [d]
        files := w.files.insert d.filling
          { n with
            kind := .regular
            author := .application } })

/-- `download_file`: the client renames the file it filled. -/
def downloadFile (d : Download) : Working Unit := do
  startDownload d
  rename d.filling d.temporary

/-- `download_exact_version_plaintext`: on any exception the temporary is removed. -/
def download (job : LocalJob) (d : Download) : Working Unit := do
  ensureJobActive job
  (downloadFile d).handle fun e => do
    unlinkMissingOk d.temporary
    .raise e
  ensureJobActive job
  let n ← lstat d.temporary
  .require (n.kind = .regular) (.refused "S3 download did not create the recovered file")

/-! ### The publication -/

/-- The entry a publication observes. -/
def publishedEntry (path : Path) (st : FileStat) (at_ : Stamp) : LocalEntry where
  path := path
  fileType := .regular
  size := some st.size
  mtimeNs := some st.mtimeNs
  observedAt := at_

/-- The Local Copy recorded and matched to the version: `observe_local_copy` and
`set_local_fingerprint`. -/
def recordRecovered (vaults : VaultTable) (cat : Catalog) (v : VaultId) (path : Path)
    (st : FileStat) (target : RecoverTarget) (at_ : Stamp) (seenAt : Option Stamp) :
    Option Catalog :=
  (observeLocalCopy vaults cat v (publishedEntry path st at_) seenAt (some at_)).map fun cat =>
    setLocalFingerprint cat v path target.sha256 (some target.versionId)

/-- The transaction of `process_recover`; one that raises is rolled back. -/
def publish (vaults : VaultTable) (job : LocalJob) (st : FileStat) (target : RecoverTarget) :
    Working Unit :=
  .commit (fun w => if (published w).isOk then .recorded target else .checked) fun w =>
    (published w).map fun cat => ((), { w with cat := cat })
where
  /-- The catalog after it. -/
  published (w : LocalWorld) : Except LocalError Catalog := do
    let cat ← renewedClaim w job
    match recordRecovered vaults cat job.vaultId job.path st target w.now none with
    | none => .error (.refused "Deletion has started or is no longer cancellable")
    | some cat => .ok cat

/-- Under the scan lock: the temporary is renamed and recorded. -/
def publishTemporary (vaults : VaultTable) (job : LocalJob) (d : Download) (st : FileStat)
    (target : RecoverTarget) : Working Unit := do
  ensureJobActive job
  let unchanged ← statUnchanged d.temporary st
  .require (unchanged = true) (.refused "Recovered plaintext changed before publication")
  let occupied ← lexists d.destination
  .require (occupied = false) (.refused "A local copy already exists at the recovery destination")
  rename d.temporary d.destination
  let _ ← lstat d.destination
  publish vaults job st target

/-- The body of the `try`. -/
def recoverInto (vaults : VaultTable) (job : LocalJob) (d : Download) (target : RecoverTarget) :
    Working Unit := do
  download job d
  ensureJobActive job
  let _ ← setJob job .verifying
  let (digest, st) ← hashStableRegularFile d.temporary
  .require (digest = target.sha256)
    (.refused "Recovered plaintext digest does not match the Archive Version")
  publishTemporary vaults job d st target

/-- The target of a recovery. -/
def readTarget (job : LocalJob) : Working RecoverTarget :=
  .ask (fun | .ok t => .targeted t | .error _ => .checked) fun w =>
    recoverTarget w.cat job.id

/-- The download of a Job. -/
def Naming.download (n : Naming) (job : LocalJob) (destination : Place) : Download :=
  { n with
    job := job.id
    destination := destination }

/-- `process_recover`.  The restore of an archived version, with its approval, is one answer:
the recovery goes on, or waits. -/
def processRecover (vaults : VaultTable) (job : LocalJob) (n : Naming) : Working Unit := do
  ensureJobActive job
  let target ← readTarget job
  let waits ← look fun w => .ok w.waits
  match waits with
  | some wait => do
      let _ ← setJob job wait.status
      pure ()
  | none => do
      let destination ← locate job.vaultId job.path
      let _ ← setJob job .downloading
      (recoverInto vaults job (n.download job destination) target).ensuring
        (unlinkMissingOk (n.download job destination).temporary)
      let _ ← setJob job .completed
      pure ()

/-! ### The restart -/

/-- The recognised temporaries of a directory that can be removed. -/
def abandoned (w : LocalWorld) (dir : ℕ) : List Place :=
  (((names w.files dir).filter isRestoreTemporary).map (⟨dir, ·⟩)).filter fun p =>
    (w.unlinked p).isOk

/-- `_remove_abandoned_restore_files`, for the directory of a destination.  The entries that
cannot be removed are left. -/
def LocalWorld.sweep (w : LocalWorld) (dir : ℕ) : LocalWorld :=
  { w with files := removeAll w.files (abandoned w dir) }

/-- The same, as an action. -/
def removeAbandonedRestoreFiles (dir : ℕ) : Working Unit :=
  .commit (fun _ => .swept dir) fun w => .ok ((), w.sweep dir)

/-- The Job can be moved by a restart: nobody holds it, and it is not over. -/
def LocalWorld.stale (w : LocalWorld) (job : JobId) (at_ : Stamp) : Bool :=
  (w.cat.job? job).any fun j => j.claimAvailable at_ && !j.status.terminal

/-- `_reconcile_job_transition`; it says whether it changed the Job. -/
def transition (job : JobId) (status : JobStatus) (named : Option Place) (at_ : Stamp) :
    Working Bool :=
  .commit (fun w => if w.stale job at_ then .reconciled job status named else .checked) fun w =>
    .ok (w.stale job at_, { w with cat := reconcileJobTransition w.cat job status at_ })

/-- The groups that are cancelled one after the other, up to the one that is refused. -/
def cancelUntilRefused (vaults : VaultTable) (v : VaultId) :
    Catalog → List (Option GroupId) → Catalog
  | cat, [] => cat
  | cat, g :: gs =>
      match g.bind fun g => cancelCloudDeletion vaults cat v g with
      | some cat' => cancelUntilRefused vaults v cat' gs
      | none => cat

/-- The upsert of `observe_local_copy`, and the id of its file. -/
def observedCatalog (cat : Catalog) (v : VaultId) (e : LocalEntry)
    (seenAt recoveredAt : Option Stamp) : Catalog × FileId :=
  let (cat', id) := getOrCreateFile cat v e.path e.observedAt
  (cat'.mapLocalCopies fun f =>
    if f.id = id then
      let lc := observedCopy f.localCopy (if recoveredAt.isNone then f.onlyCloudCopy else none)
        e seenAt
      some { lc with recoveredAt := recoveredAt.orElse fun _ => lc.recoveredAt }
    else f.localCopy, id)

/-- What is left of an observation that raised: `observe_local_copy` raises when a deletion it
should revoke has started, after it wrote the Local Copy. -/
def refusedObservation (vaults : VaultTable) (cat : Catalog) (v : VaultId) (e : LocalEntry)
    (seenAt recoveredAt : Option Stamp) : Catalog :=
  let (written, id) := observedCatalog cat v e seenAt recoveredAt
  cancelUntilRefused vaults v written (openGroups written.jobs v [id])

/-- The end of `_reconcile_recover_job`: the Job is completed first, then the Local Copy is
recorded, all in the transaction of the restart.  An exception does not undo it: the restart
catches it inside the transaction. -/
def adopt (vaults : VaultTable) (job : LocalJob) (st : FileStat) (target : RecoverTarget)
    (at_ : Stamp) : Working Unit :=
  .act (fun w => if w.stale job.id at_ then .adopted job.id target st else .checked)
    (fun w => (adopted w).2) fun w => .ofExcept (adopted w).1
where
  /-- How it ends, and the world it leaves. -/
  adopted (w : LocalWorld) : Except LocalError Unit × LocalWorld :=
    if w.stale job.id at_ then
      let cat := reconcileJobTransition w.cat job.id .completed at_
      let left := refusedObservation vaults cat job.vaultId (publishedEntry job.path st at_)
        (some at_) (some at_)
      match recordRecovered vaults cat job.vaultId job.path st target at_ (some at_) with
      | some cat' => (.ok (), { w with cat := cat' })
      | none =>
          (.error (.refused "Deletion has started or is no longer cancellable"),
            { w with cat := left })
    else (.ok (), w)

/-- The target of a restart. -/
def readRestartTarget (job : LocalJob) : Working (Option RecoverTarget) :=
  .act (fun w => match restartTarget w.cat job.id with
      | some t => .targeted t
      | none => .checked) id fun w => pure (restartTarget w.cat job.id)

/-- `_reconcile_recover_job`. -/
def reconcileRecoverJob (vaults : VaultTable) (job : LocalJob) (destination : Place)
    (at_ : Stamp) : Working Unit := do
  let target ← readRestartTarget job
  let there ← lexists destination
  if there then
    let regular ← look fun w =>
      .ok ((w.files.lookup destination).any fun n => n.kind = .regular)
    if regular then
      match target with
      | none => failed
      | some t => do
          let r ← (hashStableRegularFile destination).outcome
          match r with
          | .error _ => failed
          | .ok (digest, st) =>
              if digest = t.sha256 then adopt vaults job st t at_ else failed
    else failed
  else do
    let _ ← transition job.id .queued none at_
    pure ()
where
  /-- The final path is preserved. -/
  failed : Working Unit := do
    let _ ← transition job.id .failed none at_
    pure ()

/-- A restart decision of the loop: an exception fails the Job. -/
def orFailed (job : LocalJob) (at_ : Stamp) (p : Working Unit) : Working Unit :=
  p.handle fun _ => do
    let _ ← transition job.id .failed none at_
    pure ()

/-- The recover branch of `_reconcile_interrupted_jobs_impl`. -/
def reconcileRecover (vaults : VaultTable) (job : LocalJob) (at_ : Stamp) : Working Unit := do
  let allowed ← look fun w => .ok (w.access job.vaultId)
  if allowed then
    orFailed job at_ do
      let isDir ← look fun w => .ok (w.rootIsDir job.vaultId)
      .require (isDir = true) (.refused "Source folder is unavailable")
      let destination ← locate job.vaultId job.path
      removeAbandonedRestoreFiles destination.dir
      reconcileRecoverJob vaults job destination at_
  else pure ()

end Frostvault
